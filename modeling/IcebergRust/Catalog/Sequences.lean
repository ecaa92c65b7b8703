import IcebergRust.Catalog.Heads
import IcebergRust.Transaction.Sequences

/-!
# Sequence numbers over whole runs

Any number of clients write to one table and one object store.

* `Carries` is the invariant of the loop of `commit`: what has been stored for the snapshots
  it is about to send.  It holds of every proposal on its way (`prepare_carries`), whatever
  the catalog has accepted since.
* `Keeps` is the invariant of runs; acceptance adds the snapshots of a proposal to newer
  metadata (`TableSequenced.merge`).
* `sequencesHold`: the numbers of snapshots, rows and entries agree in every run whose
  accepted transactions write at most one sequence group; with two they do not.
-/

namespace IcebergRust

open Fallible TableTransaction Optimistic

variable {V : Type}

/-! ### Names -/

/-- The UUIDs drawn for an operation. -/
def Entropy.names (drawn : Entropy) : List String := [drawn.uuid, drawn.writerUuid]

/-- The UUIDs drawn for a request, operation by operation. -/
def CommitRequest.names (request : CommitRequest V) : List (List String) :=
  request.transaction.flatten.map fun operation => (request.entropy operation.index).names

/-- The UUIDs drawn in a run, operation by operation. -/
def namesDrawn : List (TableEvent V) → List (List String)
  | [] => []
  | .prepare _ request :: events => request.names ++ namesDrawn events
  | .send _ _ :: events => namesDrawn events

/-- No object is named by one of the UUIDs, and different operations have different ones. -/
structure FreshNames (location : String) (store : Store V) (names : List (List String)) : Prop where
  apart : names.Pairwise fun first second => ∀ uuid ∈ first, uuid ∉ second
  unused : ∀ uuids ∈ names, ∀ uuid ∈ uuids, store.Unused location uuid

variable {store : Store V} {updates : List TableUpdate} {base : TableMetadata}

theorem FreshNames.left {location : String} {first rest : List (List String)}
    (fresh : FreshNames location store (first ++ rest)) : FreshNames location store first :=
  ⟨(List.pairwise_append.mp fresh.apart).1,
    fun uuids member => fresh.unused uuids (List.mem_append_left rest member)⟩

theorem FreshNames.unused_flatten {location : String} {names : List (List String)}
    (fresh : FreshNames location store names) :
    ∀ uuid ∈ names.flatten, store.Unused location uuid := by
  intro uuid member
  obtain ⟨uuids, within, here⟩ := List.mem_flatten.mp member
  exact fresh.unused uuids within uuid here

variable {stored : Store V} {snapshot : Snapshot} {metadata : TableMetadata}
  {operation : Operation V} {entropy : Nat → Entropy} {state : TableState V}

/-- Storing objects under the first names leaves the others fresh. -/
theorem FreshNames.after {location : String} {first rest : List (List String)}
    (fresh : FreshNames location store (first ++ rest))
    (changes : store.ChangesOnly location first.flatten stored) :
    FreshNames location stored rest := by
  obtain ⟨-, apart, disjoint⟩ := List.pairwise_append.mp fresh.apart
  refine ⟨apart, fun uuids member uuid here => changes.unused ?_
    (fresh.unused uuids (List.mem_append_right first member) uuid here)⟩
  intro earlier
  obtain ⟨others, within, there⟩ := List.mem_flatten.mp earlier
  exact disjoint others within uuids member uuid there here

/-! ### Snapshots of a commit -/

theorem mem_addedBy : snapshot ∈ addedBy updates ↔ .addSnapshot snapshot ∈ updates := by
  unfold addedBy
  rw [List.mem_filterMap]
  constructor
  · rintro ⟨update, member, same⟩
    cases update <;> cases same
    exact member
  · exact fun member => ⟨_, member, rfl⟩

theorem addedBy_append (first second : List TableUpdate) :
    addedBy (first ++ second) = addedBy first ++ addedBy second :=
  List.filterMap_append

theorem lookup_foldl_erase {ids : List Int} {snapshots : HashMap Int Snapshot} {id : Int}
    (found : (ids.foldl (fun left id => left.erase id) snapshots).lookup id = some snapshot) :
    snapshots.lookup id = some snapshot := by
  induction ids generalizing snapshots with
  | nil => exact found
  | cons removed ids ih =>
    have later := ih found
    by_cases same : id = removed
    · rw [same, AList.lookup_erase] at later
      cases later
    · rwa [AList.lookup_erase_ne same] at later

/-- A snapshot after updates was there before, or has been added under its id. -/
theorem lookup_foldl_snapshots {snapshots : HashMap Int Snapshot} {id : Int}
    (found : (updates.foldl TableUpdate.snapshots snapshots).lookup id = some snapshot) :
    snapshots.lookup id = some snapshot ∨
      (snapshot ∈ addedBy updates ∧ snapshot.snapshotId = id) := by
  induction updates generalizing snapshots with
  | nil => exact .inl found
  | cons update updates ih =>
    rw [List.foldl_cons] at found
    rcases ih found with here | ⟨member, same⟩
    · cases update with
      | addSnapshot added =>
        by_cases same : id = added.snapshotId
        · rw [TableUpdate.snapshots, same, AList.lookup_insert] at here
          obtain rfl := Option.some.inj here
          exact .inr ⟨mem_addedBy.mpr List.mem_cons_self, same.symm⟩
        · rw [TableUpdate.snapshots, AList.lookup_insert_ne same] at here
          exact .inl here
      | removeSnapshots ids => exact .inl (lookup_foldl_erase here)
      | _ => exact .inl here
    · exact .inr ⟨mem_addedBy.mpr (List.mem_cons_of_mem _ (mem_addedBy.mp member)), same⟩

/-- The last sequence number after updates is that of a snapshot they have added, or the old one. -/
theorem lastSequenceNumber_foldl (updates : List TableUpdate) (last : Int) :
    updates.foldl TableUpdate.lastSequenceNumber last = last ∨
      ∃ snapshot ∈ addedBy updates,
        updates.foldl TableUpdate.lastSequenceNumber last = snapshot.sequenceNumber := by
  induction updates generalizing last with
  | nil => exact .inl rfl
  | cons update updates ih =>
    rw [List.foldl_cons]
    have later (same : updates.foldl TableUpdate.lastSequenceNumber last = last ∨
        ∃ snapshot ∈ addedBy updates,
          updates.foldl TableUpdate.lastSequenceNumber last = snapshot.sequenceNumber) :
        updates.foldl TableUpdate.lastSequenceNumber last = last ∨
          ∃ snapshot ∈ addedBy (update :: updates),
            updates.foldl TableUpdate.lastSequenceNumber last = snapshot.sequenceNumber := by
      refine same.imp id fun added => ?_
      obtain ⟨snapshot, member, same⟩ := added
      exact ⟨snapshot, mem_addedBy.mpr (List.mem_cons_of_mem _ (mem_addedBy.mp member)), same⟩
    cases update with
    | addSnapshot snapshot =>
      right
      rcases ih snapshot.sequenceNumber with same | ⟨other, member, same⟩
      · exact ⟨snapshot, mem_addedBy.mpr List.mem_cons_self, same⟩
      · exact ⟨other, mem_addedBy.mpr (List.mem_cons_of_mem _ (mem_addedBy.mp member)), same⟩
    | _ => exact later (ih last)

/-- The snapshots of a commit have new ids and increasing sequence numbers. -/
structure Lands (base : TableMetadata) (added : List Snapshot) : Prop where
  distinct : (added.map (·.snapshotId)).Nodup
  fresh : ∀ snapshot ∈ added, snapshot.snapshotId ∉ base.snapshots
  above : ∀ snapshot ∈ added, base.lastSequenceNumber < snapshot.sequenceNumber
  increasing : added.Pairwise fun a b => a.sequenceNumber < b.sequenceNumber

theorem Lands.left {first second : List Snapshot} (lands : Lands base (first ++ second)) :
    Lands base first where
  distinct := by
    have distinct := lands.distinct
    rw [List.map_append] at distinct
    exact (List.nodup_append.mp distinct).1
  fresh snapshot member := lands.fresh snapshot (List.mem_append_left _ member)
  above snapshot member := lands.above snapshot (List.mem_append_left _ member)
  increasing := (List.pairwise_append.mp lands.increasing).1

/-- The next snapshot of a commit is new to the staged metadata, and above its last sequence
number. -/
theorem Lands.next (lands : Lands base (addedBy updates ++ [snapshot])) :
    snapshot.snapshotId ∉ updates.foldl TableUpdate.snapshots base.snapshots ∧
      updates.foldl TableUpdate.lastSequenceNumber base.lastSequenceNumber <
        snapshot.sequenceNumber := by
  have here : snapshot ∈ addedBy updates ++ [snapshot] := by simp
  constructor
  · intro member
    obtain ⟨other, found⟩ := Option.isSome_iff_exists.mp (AList.lookup_isSome.mpr member)
    rcases lookup_foldl_snapshots found with old | ⟨added, same⟩
    · exact lands.fresh snapshot here (AList.lookup_isSome.mp (by rw [old]; rfl))
    · have distinct := lands.distinct
      rw [List.map_append, List.nodup_append] at distinct
      exact distinct.2.2 _ (List.mem_map_of_mem added) _ List.mem_cons_self same
  · rcases lastSequenceNumber_foldl updates base.lastSequenceNumber with same | ⟨other, added, same⟩
    · rw [same]
      exact lands.above snapshot here
    · rw [same]
      exact (List.pairwise_append.mp lands.increasing).2.2 other added snapshot List.mem_cons_self

/-! ### The loop of a commit -/

/-- What is stored for updates a commit is going to send. -/
structure Carries (base : TableMetadata) (clean : Prop) (store : Store V)
    (updates : List TableUpdate) : Prop where
  readable : ∀ snapshot ∈ addedBy updates, Readable store snapshot
  located : ∀ location, .setLocation location ∉ updates
  onlySnapshots : clean → OnlySnapshots updates
  sequenced : clean → Lands base (addedBy updates) →
    TableSequenced base.formatVersion (updates.foldl TableUpdate.snapshots base.snapshots)
      (updates.foldl TableUpdate.lastSequenceNumber base.lastSequenceNumber) store

theorem Carries.mono {clean cleaner : Prop} (carries : Carries base clean store updates)
    (implies : cleaner → clean) (grows : store.Extends stored) :
    Carries base cleaner stored updates where
  readable snapshot member := (carries.readable snapshot member).extends grows
  located := carries.located
  onlySnapshots holds := carries.onlySnapshots (implies holds)
  sequenced holds lands := (carries.sequenced (implies holds) lands).extends grows

/-- No operation moves the table. -/
theorem Outcome.located {entropy : Entropy} {requirement : Option TableRequirement}
    (outcome : Outcome metadata entropy operation requirement updates) (location : String) :
    .setLocation location ∉ updates := by
  cases outcome <;> simp [snapshotCommit]

theorem applyTableUpdates_location {after : TableMetadata} {now : Int}
    (run : applyTableUpdates metadata updates now = .ok after)
    (located : ∀ location, .setLocation location ∉ updates) :
    after.location = metadata.location := by
  obtain ⟨state, kept, rfl⟩ := applyTableUpdates_prefix
    (fun done state => (∀ location, .setLocation location ∉ done) →
      state.metadata.location = metadata.location)
    (fun done update state next here applied stays => by
      have earlier := here fun location member => stays location (List.mem_append_left _ member)
      cases applied with
      | location location => exact absurd (List.mem_append_right done List.mem_cons_self) (stays _)
      | _ => exact earlier) run (fun _ => rfl)
  exact kept located

/-- What an operation of a commit has read. -/
structure Reads (base read : TableMetadata) (updates : List TableUpdate) : Prop where
  effect : Effect base read updates
  location : read.location = base.location

variable [PartitionValue V]

/-- One more operation. -/
theorem Carries.step {read : TableMetadata} {clean : Prop} {sent : List TableUpdate}
    {drawn : Entropy} {requirement : Option TableRequirement}
    (carries : Carries base clean store updates) (reads : Reads base read updates)
    (run : operation.execute read store drawn = .ok (stored, requirement, sent))
    (readable : ∀ id snapshot, base.snapshots.lookup id = some snapshot → Readable store snapshot)
    (unused : ∀ uuid ∈ drawn.names, store.Unused base.location uuid)
    (versioned : clean → base.formatVersion ≠ .v1)
    (single : clean → operation.OneGroup ∧ operation.branch.isSome) :
    store.ChangesOnly base.location drawn.names stored ∧
      Carries base clean stored (updates ++ sent) := by
  have located := (execute_outcome run).located
  have stays : ∀ location, .setLocation location ∉ updates ++ sent := fun location member =>
    (List.mem_append.mp member).elim (carries.located location) (located location)
  have heads : ∀ id head, read.snapshots.lookup id = some head → Readable store head := by
    intro id head found
    rw [reads.effect.snapshots] at found
    rcases lookup_foldl_snapshots found with old | ⟨added, -⟩
    · exact readable id head old
    · exact carries.readable head added
  rw [← reads.location] at unused
  rcases execute_writes run (unused _ (by simp [Entropy.names])) heads with ⟨rfl, rfl⟩ |
    ⟨rfl, other, none⟩ | ⟨branch, old, snapshot, rfl, writes⟩
  · rw [List.append_nil]
    exact ⟨.refl _ _ _, carries⟩
  · have contra (holds : clean) : False := by
      have branch := (single holds).2
      rw [other] at branch
      cases branch
    refine ⟨.refl _ _ _, ?_, stays, fun holds => (contra holds).elim,
      fun holds => (contra holds).elim⟩
    intro snapshot member
    rw [addedBy_append] at member
    rcases List.mem_append.mp member with earlier | new
    · exact carries.readable snapshot earlier
    · exact absurd (mem_addedBy.mp new) (none snapshot)
  · have stores := writes.storesSnapshot (unused _ (by simp [Entropy.names])) heads
    have changes := stores.changes
    have grows := changes.extends unused
    have added : addedBy (updates ++ (snapshotCommit branch old snapshot).2) =
        addedBy updates ++ [snapshot] := addedBy_append _ _
    rw [reads.location] at changes
    refine ⟨changes, ?_, stays, fun holds => ?_, fun holds lands => ?_⟩
    · intro one member
      rw [added] at member
      rcases List.mem_append.mp member with earlier | new
      · exact (carries.readable one earlier).extends grows
      · exact List.mem_singleton.mp new ▸ stores.readable
    · intro update member
      rcases List.mem_append.mp member with earlier | new
      · exact carries.onlySnapshots holds update earlier
      · rcases List.mem_pair.mp new with rfl | rfl
        · exact .inl ⟨snapshot, rfl⟩
        · exact .inr ⟨_, _, rfl⟩
    · rw [added] at lands
      obtain ⟨fresh, advances⟩ := lands.next
      have sequenced := carries.sequenced holds lands.left
      rw [← reads.effect.snapshots] at fresh sequenced
      rw [← reads.effect.lastSequenceNumber] at advances sequenced
      rw [← reads.effect.formatVersion] at sequenced
      have done := writes.sequenced (single holds).1
        (by rw [reads.effect.formatVersion]; exact versioned holds) unused sequenced fresh advances
      rw [reads.effect.formatVersion, reads.effect.snapshots] at done
      rw [List.foldl_append, List.foldl_append]
      exact done

/-- Induction over the loop, from metadata that is staged, or with a single operation to go: each
operation reads the base as changed by those before it. -/
theorem commitLoop_induction {identifier : String} {Q : TableMetadata → Prop}
    {I : List (Operation V) → Store V → List TableUpdate → Prop} {operations : List (Operation V)}
    {state after : CommitState V}
    (run : operations.foldlM (commitStep base identifier entropy) state = .ok after)
    (reads : operations ≠ [] → Reads base (state.staged.getD base) state.updates ∧
      Q (state.staged.getD base)) (alone : state.staged = none → operations.length ≤ 1)
    (keeps : ∀ read next updates now, Q read → applyTableUpdates read updates now = .ok next → Q next)
    (step : ∀ operation ∈ operations, ∀ rest read store stored updates requirement sent,
      Reads base read updates → Q read →
      operation.execute read store (entropy operation.index) = .ok (stored, requirement, sent) →
      I (operation :: rest) store updates → I rest stored (updates ++ sent))
    (start : I operations state.store state.updates) : I [] after.store after.updates := by
  induction operations generalizing state with
  | nil =>
    cases foldlM_nil_eq_ok.mp run
    exact start
  | cons operation operations ih =>
    obtain ⟨next, first, rest⟩ := foldlM_cons_eq_ok.mp run
    obtain ⟨requirement, sent, executed, -, stages, updates⟩ := commitStep_executes first
    obtain ⟨read, good⟩ := reads (List.cons_ne_nil _ _)
    have done := step operation List.mem_cons_self operations _ _ _ _ _ _ read good executed start
    rw [← updates] at done
    have unstaged : next.staged = none → operations = [] := by
      intro none
      cases staged : state.staged with
      | none => simpa using alone staged
      | some metadata =>
        rw [staged, none] at stages
        simp [stage, map_eq_ok] at stages
    refine ih rest ?_ (fun none => by simp [unstaged none])
      (fun one member => step one (List.mem_cons_of_mem _ member)) done
    intro more
    cases staged : state.staged with
    | none =>
      rw [staged] at stages
      exact absurd (unstaged (Except.ok.inj stages).symm) more
    | some metadata =>
      rw [staged] at stages read good
      simp only [stage, map_eq_ok] at stages
      obtain ⟨after, applied, stages⟩ := stages
      rw [← stages, updates]
      have stays := (execute_outcome executed).located
      exact ⟨⟨read.effect.trans (applyTableUpdates_effect applied),
        (applyTableUpdates_location applied stays).trans read.location⟩, keeps _ _ _ _ good applied⟩

/-- What the loop has stored, for the operations before those still to go. -/
structure Storing (base : TableMetadata) (entropy : Nat → Entropy) (all : List (Operation V))
    (before : Store V) (rest : List (Operation V)) (store : Store V) : Prop where
  changes : before.ChangesOnly base.location
    (all.map fun operation => (entropy operation.index).names).flatten store
  readable : ∀ id snapshot, base.snapshots.lookup id = some snapshot → Readable store snapshot
  names : FreshNames base.location store
    (rest.map fun operation => (entropy operation.index).names)

omit [PartitionValue V] in
theorem Storing.step {all rest : List (Operation V)} {before : Store V}
    (storing : Storing base entropy all before (operation :: rest) store) (member : operation ∈ all)
    (changes : store.ChangesOnly base.location (entropy operation.index).names stored) :
    Storing base entropy all before rest stored := by
  have names := storing.names
  rw [List.map_cons] at names
  have grows := changes.extends (names.unused _ List.mem_cons_self)
  refine ⟨?_, fun id snapshot found => (storing.readable id snapshot found).extends grows, ?_⟩
  · refine storing.changes.trans (changes.mono fun uuid here => ?_)
    exact List.mem_flatten.mpr ⟨_, List.mem_map_of_mem member, here⟩
  · exact @FreshNames.after _ _ _ _ [(entropy operation.index).names] _ names
      (by rwa [List.flatten_singleton])

/-- The loop stores what it is about to send. -/
theorem commitLoop_carries {identifier : String} {clean : Prop} {operations : List (Operation V)}
    {state after : CommitState V}
    (run : operations.foldlM (commitStep base identifier entropy) state = .ok after)
    (reads : operations ≠ [] → Reads base (state.staged.getD base) state.updates)
    (alone : state.staged = none → operations.length ≤ 1)
    (readable : ∀ id snapshot, base.snapshots.lookup id = some snapshot →
      Readable state.store snapshot) (names : FreshNames base.location state.store
      (operations.map fun operation => (entropy operation.index).names))
    (versioned : clean → base.formatVersion ≠ .v1)
    (single : clean → ∀ operation ∈ operations, operation.OneGroup ∧ operation.branch.isSome)
    (carries : Carries base clean state.store state.updates) :
    state.store.ChangesOnly base.location
        (operations.map fun operation => (entropy operation.index).names).flatten after.store ∧
      Carries base clean after.store after.updates := by
  have done := @commitLoop_induction _ _ _ _ _ (fun _ => True)
    (fun rest store updates => Storing base entropy operations state.store rest store ∧
      Carries base clean store updates) _ _ _ run (fun more => ⟨reads more, trivial⟩) alone
    (fun _ _ _ _ _ _ => trivial) ?_ ⟨⟨.refl _ _ _, readable, names⟩, carries⟩
  · exact ⟨done.1.changes, done.2⟩
  · intro operation member rest read store stored updates requirement sent reads _ executed here
    obtain ⟨storing, carried⟩ := here
    obtain ⟨changes, next⟩ := carried.step reads executed storing.readable
      (storing.names.unused _ List.mem_cons_self) versioned (fun holds => single holds operation member)
    exact ⟨storing.step member changes, next⟩

/-- A request of data operations with at most one sequence group. -/
def OneGroupEach (transaction : TableTransaction V) : Prop :=
  ∀ operation ∈ transaction.flatten, operation.OneGroup

instance (transaction : TableTransaction V) : Decidable (OneGroupEach transaction) :=
  inferInstanceAs (Decidable (∀ operation ∈ transaction.flatten, operation.OneGroup))

/-- What preparing a request stores. -/
theorem prepare_carries {request : CommitRequest V} {sent : Option CommitTable} {clean : Prop}
    (run : request.transaction.prepare base store request.identifier request.entropy =
      .ok (stored, sent))
    (readable : ∀ id snapshot, base.snapshots.lookup id = some snapshot → Readable store snapshot)
    (names : FreshNames base.location store request.names)
    (sequenced : clean → base.formatVersion ≠ .v1 ∧
      TableSequenced base.formatVersion base.snapshots base.lastSequenceNumber store)
    (single : clean → DataOnly request.transaction ∧ OneGroupEach request.transaction) :
    store.ChangesOnly base.location request.names.flatten stored ∧
      ∀ commit, sent = some commit → Carries base clean stored commit.updates := by
  simp only [prepare, guard_eq_ok, bind_eq_ok] at run
  obtain ⟨-, checked, -, -, state, loop, run⟩ := run
  have start : Carries base clean store [] :=
    ⟨fun _ member => absurd member List.not_mem_nil, fun _ => List.not_mem_nil,
      fun _ _ member => absurd member List.not_mem_nil, fun holds _ => (sequenced holds).2⟩
  obtain ⟨changes, carries⟩ := commitLoop_carries loop
    (by
      intro _
      dsimp only
      split <;> exact ⟨.refl base, rfl⟩)
    (by
      dsimp only
      split
      · exact fun none => by cases none
      · exact fun _ => by omega) readable names
    (fun holds => (sequenced holds).1)
    (fun holds operation member => ⟨(single holds).2 operation member,
      (single holds).1 operation member⟩) start
  split at run
  · cases run
    exact ⟨changes, fun commit none => by cases none⟩
  · cases run
    refine ⟨changes, fun commit same => ?_⟩
    cases same
    exact carries

/-! ### Runs -/

/-- What is known of an accepted commit that keeps sequence numbers. -/
def KeepsSequences (entry : AcceptedCommit V) : Prop :=
  DataOnly (transactionOf entry) ∧ OneGroupEach (transactionOf entry) ∧ FreshIds entry

/-- A proposal that keeps sequence numbers if the commits accepted so far have. -/
def CleanOver (accepted : List (AcceptedCommit V)) (request : CommitRequest V) : Prop :=
  (∀ entry ∈ accepted, KeepsSequences entry) ∧ DataOnly request.transaction ∧
    OneGroupEach request.transaction

/-- The invariant of runs of a table of version 2 or 3. -/
structure Keeps (state : TableState V) : Prop where
  formed : WellFormed (tableProtocol V) state
  versioned : state.initial.formatVersion ≠ .v1
  located : ∀ version ∈ state.versions, version.location = state.initial.location
  readable : ∀ version ∈ state.versions, ∀ id snapshot,
    version.snapshots.lookup id = some snapshot → Readable state.world snapshot
  pending : ∀ proposal ∈ state.pending, Carries proposal.base
    (CleanOver state.accepted proposal.request) state.world proposal.commit.updates
  sequenced : (∀ entry ∈ state.accepted, KeepsSequences entry) → ∀ version ∈ state.versions,
    TableSequenced version.formatVersion version.snapshots version.lastSequenceNumber state.world

omit [PartitionValue V] in
/-- Adding the snapshots of a commit to newer metadata than it was prepared from. -/
theorem TableSequenced.merge {version : FormatVersion} {few many : HashMap Int Snapshot}
    {added : List Snapshot} {last now next : Int} (sent : TableSequenced version
      (added.foldl (fun map snapshot => map.insert snapshot.snapshotId snapshot) few) last store)
    (current : TableSequenced version many now store) (includes : Includes few many)
    (distinct : (added.map (·.snapshotId)).Nodup)
    (fresh : ∀ snapshot ∈ added, snapshot.snapshotId ∉ many)
    (below : ∀ snapshot ∈ added, snapshot.sequenceNumber ≤ next) (advanced : now ≤ next) :
    TableSequenced version
      (added.foldl (fun map snapshot => map.insert snapshot.snapshotId snapshot) many) next
      store := by
  have drawn (id : Int) (member : id ∈ added.map (·.snapshotId)) : ∃ snapshot ∈ added,
      ∀ map : HashMap Int Snapshot,
        (added.foldl (fun map snapshot => map.insert snapshot.snapshotId snapshot) map).lookup id =
          some snapshot := by
    obtain ⟨snapshot, within, rfl⟩ := List.mem_map.mp member
    exact ⟨snapshot, within, fun _ => lookup_insertAll_of_mem distinct within⟩
  have old (id : Int) (snapshot : Snapshot) (found : many.lookup id = some snapshot) :
      id ∉ added.map (·.snapshotId) := by
    intro member
    obtain ⟨other, within, rfl⟩ := List.mem_map.mp member
    exact fresh other within (AList.lookup_isSome.mp (by rw [found]; rfl))
  have later : Includes many (added.foldl
      (fun map snapshot => map.insert snapshot.snapshotId snapshot) many) := by
    intro id snapshot found
    rwa [lookup_insertAll (old id snapshot found)]
  have both : Includes (added.foldl
      (fun map snapshot => map.insert snapshot.snapshotId snapshot) few) (added.foldl
      (fun map snapshot => map.insert snapshot.snapshotId snapshot) many) := by
    intro id snapshot found
    by_cases member : id ∈ added.map (·.snapshotId)
    · obtain ⟨other, -, same⟩ := drawn id member
      rw [same] at found ⊢
      exact found
    · rw [lookup_insertAll member] at found
      exact later id snapshot (includes id snapshot found)
  constructor
  · intro id snapshot found
    by_cases member : id ∈ added.map (·.snapshotId)
    · obtain ⟨other, -, same⟩ := drawn id member
      rw [same] at found
      exact (sent.lists id snapshot (by rw [same, found])).mono both (.refl _)
    · rw [lookup_insertAll member] at found
      exact (current.lists id snapshot found).mono later (.refl _)
  · intro id snapshot found
    by_cases member : id ∈ added.map (·.snapshotId)
    · obtain ⟨other, within, same⟩ := drawn id member
      rw [same] at found
      exact Option.some.inj found ▸ below other within
    · rw [lookup_insertAll member] at found
      exact le_trans (current.below id snapshot found) advanced

theorem lastSequenceNumber_versions {initial : TableMetadata} {accepted : List (AcceptedCommit V)}
    (history : TableHistory V initial accepted) (versioned : initial.formatVersion ≠ .v1) :
    ∀ version ∈ versions initial accepted,
      version.lastSequenceNumber ≤ (latest initial accepted).lastSequenceNumber := by
  refine history.related (fun a b => a.lastSequenceNumber ≤ b.lastSequenceNumber)
    (fun _ => le_refl _) (fun _ _ _ => le_trans) fun entry member => ?_
  obtain ⟨later, past, rfl⟩ := List.append_of_mem member
  obtain ⟨here, -, performed, spec⟩ := history.accepted_spec
  refine (spec.sequenced ?_).advanced
  rw [here, formatVersion_versions history.prior _ (latest_mem_versions initial past)]
  exact versioned

/-- Preparing a request keeps the invariant if its names are fresh. -/
theorem Keeps.prepare (keeps : Keeps state) (age : Nat) (request : CommitRequest V)
    (names : FreshNames state.initial.location state.world request.names) :
    state.world.ChangesOnly state.initial.location request.names.flatten
        (step (tableProtocol V) state (.prepare age request)).world ∧
      Keeps (step (tableProtocol V) state (.prepare age request)) := by
  have formed := keeps.formed.step (.prepare age request)
  rcases step_prepare state age request with same | ⟨base, known, world, sent, prepared, same⟩
  · rw [same]
    exact ⟨.refl _ _ _, keeps⟩
  · rw [same] at formed ⊢
    have location := keeps.located base known
    have version := formatVersion_versions keeps.formed.history base known
    obtain ⟨changes, carries⟩ := @prepare_carries V _ _ _ _ _ _ (CleanOver state.accepted request)
      (toOption_eq_some.mp prepared) (keeps.readable base known) (location ▸ names)
      (fun holds => ⟨version ▸ keeps.versioned, keeps.sequenced holds.1 base known⟩)
      (fun holds => holds.2)
    rw [location] at changes
    have grows := changes.extends names.unused_flatten
    refine ⟨changes, formed, keeps.versioned, keeps.located, ?_, ?_, ?_⟩
    · intro version member id snapshot found
      exact (keeps.readable version member id snapshot found).extends grows
    · intro proposal member
      rcases List.mem_append.mp member with old | new
      · exact (keeps.pending proposal old).mono id grows
      · cases sent with
        | none => exact absurd new List.not_mem_nil
        | some commit =>
          obtain rfl := List.mem_singleton.mp new
          exact carries commit rfl
    · intro good version member
      exact (keeps.sequenced good version member).extends grows

omit [PartitionValue V] in
/-- A proposal that lands, against the metadata it was prepared from. -/
theorem AcceptedSpec.lands {entry : AcceptedCommit V} {performed : List (Performed V)}
    (spec : AcceptedSpec entry performed) (versioned : entry.current.formatVersion ≠ .v1)
    (fresh : FreshIds entry)
    (includes : Includes entry.proposal.base.snapshots entry.current.snapshots)
    (below : entry.proposal.base.lastSequenceNumber ≤ entry.current.lastSequenceNumber) :
    Lands entry.proposal.base (snapshotsOf entry) where
  distinct := fresh.1
  fresh snapshot member inside := by
    obtain ⟨other, found⟩ := Option.isSome_iff_exists.mp (AList.lookup_isSome.mpr inside)
    have there := includes _ _ found
    exact fresh.2 snapshot member (AList.lookup_isSome.mp (by rw [there]; rfl))
  above snapshot member := lt_of_le_of_lt below ((spec.sequenced versioned).above snapshot member)
  increasing := (spec.sequenced versioned).increasing

/-- Accepting a commit keeps the invariant. -/
theorem Keeps.accept (keeps : Keeps state)
    {proposal : Proposal TableMetadata (CommitRequest V) CommitTable}
    (sent : proposal ∈ state.pending) {environment : Int} {next : TableMetadata}
    (applied : (tableProtocol V).apply proposal.commit environment state.current = some next)
    {pending : List (Proposal TableMetadata (CommitRequest V) CommitTable)}
    (fewer : ∀ other ∈ pending, other ∈ state.pending)
    (formed : WellFormed (tableProtocol V) { state with
      pending
      accepted := ⟨proposal, environment, state.current, next⟩ :: state.accepted }) :
    Keeps { state with
      pending
      accepted := ⟨proposal, environment, state.current, next⟩ :: state.accepted } := by
  have carries := keeps.pending proposal sent
  have current : state.current ∈ state.versions := latest_mem_versions state.initial state.accepted
  have known := (keeps.formed.pending proposal sent).1
  obtain ⟨-, run⟩ := tableProtocol_apply_eq_some.mp applied
  have effect := applyTableUpdates_effect run
  refine ⟨formed, keeps.versioned, ?_, ?_, ?_, ?_⟩
  · intro version member
    rcases List.mem_cons.mp member with rfl | old
    · exact (applyTableUpdates_location run carries.located).trans (keeps.located _ current)
    · exact keeps.located version old
  · intro version member id snapshot found
    rcases List.mem_cons.mp member with rfl | old
    · have added : (proposal.commit.updates.foldl TableUpdate.snapshots
          state.current.snapshots).lookup id = some snapshot := effect.snapshots ▸ found
      rcases lookup_foldl_snapshots added with here | ⟨new, -⟩
      · exact keeps.readable _ current id snapshot here
      · exact carries.readable snapshot new
    · exact keeps.readable version old id snapshot found
  · intro other member
    refine (keeps.pending other (fewer other member)).mono ?_ (.refl _)
    exact fun clean => ⟨fun entry old => clean.1 entry (List.mem_cons_of_mem _ old), clean.2⟩
  · intro good version member
    have earlier : ∀ entry ∈ state.accepted, KeepsSequences entry :=
      fun entry old => good entry (List.mem_cons_of_mem _ old)
    rcases List.mem_cons.mp member with rfl | old
    · obtain ⟨data, single, fresh⟩ := good _ List.mem_cons_self
      obtain ⟨performed, spec⟩ := TableHistory.spec_of_mem formed.history List.mem_cons_self
      have version := formatVersion_versions keeps.formed.history _ current
      have versioned : state.current.formatVersion ≠ .v1 := version ▸ keeps.versioned
      have includes : Includes proposal.base.snapshots state.current.snapshots :=
        keepsSnapshots_versions keeps.formed.history (fun entry old => (earlier entry old).1)
          (fun entry old => (earlier entry old).2.2) _ known
      have lands := spec.lands versioned fresh includes
        (lastSequenceNumber_versions keeps.formed.history keeps.versioned _ known)
      have clean : CleanOver state.accepted proposal.request := ⟨earlier, data, single⟩
      have stored := carries.sequenced clean lands
      rw [snapshots_of_onlySnapshots (carries.onlySnapshots clean),
        formatVersion_versions keeps.formed.history _ known, ← version] at stored
      have sequenced := spec.sequenced versioned
      have merged := stored.merge (keeps.sequenced earlier _ current) includes fresh.1 fresh.2
        sequenced.below sequenced.advanced
      rw [← snapshots_of_onlySnapshots (carries.onlySnapshots clean), ← effect.snapshots,
        ← effect.formatVersion] at merged
      exact merged
    · exact keeps.sequenced earlier version old

theorem Keeps.send (keeps : Keeps state) (place : Nat) (now : Int) :
    (step (tableProtocol V) state (.send place now)).world = state.world ∧
      Keeps (step (tableProtocol V) state (.send place now)) := by
  have formed := keeps.formed.step (.send place now)
  rcases step_send state place now with same | same | ⟨proposal, sent, next, applied, same⟩
  · rw [same]
    exact ⟨rfl, keeps⟩
  · rw [same] at formed ⊢
    exact ⟨rfl, formed, keeps.versioned, keeps.located, keeps.readable,
      fun proposal member => keeps.pending proposal (List.mem_of_mem_eraseIdx member),
      keeps.sequenced⟩
  · rw [same] at formed ⊢
    exact ⟨rfl, keeps.accept sent applied (fun _ member => List.mem_of_mem_eraseIdx member) formed⟩

/-- A property that every step preserves where the invariant holds, after a run that draws fresh
names. -/
theorem Keeps.induction {P : TableState V → Prop}
    (prepare : ∀ state, Keeps state → P state → ∀ age request,
      FreshNames state.initial.location state.world request.names →
        P (step (tableProtocol V) state (.prepare age request)))
    (send : ∀ state, Keeps state → P state → ∀ place now,
      P (step (tableProtocol V) state (.send place now))) (keeps : Keeps state) (start : P state)
    {events : List (TableEvent V)}
    (names : FreshNames state.initial.location state.world (namesDrawn events)) :
    Keeps (run (tableProtocol V) state events) ∧ P (run (tableProtocol V) state events) := by
  induction events generalizing state with
  | nil => exact ⟨keeps, start⟩
  | cons event events ih =>
    cases event with
    | prepare age request =>
      obtain ⟨changes, kept⟩ := keeps.prepare age request names.left
      refine ih kept (prepare state keeps start age request names.left) ?_
      rw [step_initial]
      exact names.after changes
    | send place now =>
      obtain ⟨world, kept⟩ := keeps.send place now
      refine ih kept (send state keeps start place now) ?_
      rw [step_initial, world]
      exact names

/-- The invariant holds after every run that draws fresh names. -/
theorem Keeps.run (keeps : Keeps state) {events : List (TableEvent V)}
    (names : FreshNames state.initial.location state.world (namesDrawn events)) :
    Keeps (run (tableProtocol V) state events) :=
  (keeps.induction (P := fun _ => True) (fun _ _ _ _ _ _ => trivial) (fun _ _ _ _ _ => trivial)
    trivial names).1

/-! ### The property -/

/-- The numbers the sequence groups of an operation receive from an offset on, in their order. -/
def groupSequenceNumbers (metadata : TableMetadata) : Int → List (SequenceGroup V) → List Int
  | _, [] => []
  | dsnOffset, _ :: groups =>
    wrapI64 (metadata.lastSequenceNumber + (dsnOffset + 1)) ::
      groupSequenceNumbers metadata (dsnOffset + 1) groups

/-- The numbers of the sequence groups of an operation. -/
def Operation.groupSequenceNumbers (metadata : TableMetadata) : Operation V → List Int
  | .appendSequenceGroups _ groups => IcebergRust.groupSequenceNumbers metadata 0 groups
  | _ => []

/-- The sequence numbers of a table, its lists, manifests and entries agree, and the groups of every
accepted operation received increasing ones. -/
structure SequencesHold (state : TableState V) : Prop where
  table : ∀ version ∈ state.versions, TableSequenced version.formatVersion version.snapshots
    version.lastSequenceNumber state.world
  groups : ∀ entry ∈ state.accepted, ∃ performed, AcceptedSpec entry performed ∧
    ∀ one ∈ performed, one.updates ≠ [] →
      (one.operation.groupSequenceNumbers one.read).Pairwise (· < ·)

omit [PartitionValue V] in
/-- A single group cannot be out of order. -/
theorem AcceptedSpec.groups_pairwise {entry : AcceptedCommit V} {performed : List (Performed V)}
    (spec : AcceptedSpec entry performed) (single : OneGroupEach (transactionOf entry))
    {one : Performed V} (member : one ∈ performed) (sent : one.updates ≠ []) :
    (one.operation.groupSequenceNumbers one.read).Pairwise (· < ·) := by
  have flat : one.operation ∈ (transactionOf entry).flatten := by
    rw [← spec.prepared.operations]
    exact List.mem_map_of_mem member
  have alone := single _ flat
  have outcome := spec.prepared.performs.outcome member
  obtain ⟨operation, read, requirement, updates⟩ := one
  dsimp only at outcome sent alone ⊢
  cases operation with
  | appendSequenceGroups branch groups =>
    have files : writesFiles (.appendSequenceGroups branch groups) = true := by
      cases outcome with
      | nothing => exact absurd rfl sent
      | snapshot _ _ _ _ _ _ wrote => exact wrote (show 3 < 4 by decide)
    have few := alone files
    rcases groups with _ | ⟨group, _ | ⟨second, others⟩⟩
    · exact .nil
    · exact List.pairwise_singleton _ _
    · rw [List.length_cons, List.length_cons] at few
      omega
  | _ => exact .nil

theorem keeps_start {initial : TableMetadata} (versioned : initial.formatVersion ≠ .v1)
    (start : TableSequenced initial.formatVersion initial.snapshots initial.lastSequenceNumber
      store) : Keeps (.start initial store : TableState V) := by
  refine ⟨wellFormed_start initial store, versioned, ?_, ?_,
    fun _ member => absurd member List.not_mem_nil, ?_⟩
  · intro version member
    rw [List.mem_singleton.mp member]
  · intro version member id snapshot found
    obtain rfl := List.mem_singleton.mp member
    exact (start.lists id snapshot found).readable
  · intro _ version member
    rw [List.mem_singleton.mp member]
    exact start

/-- In every run of data operations on a table of version 2 or 3, with UUIDs and snapshot ids that
are drawn fresh and at most one sequence group in each accepted operation: the row of every manifest
has the sequence number of the snapshot that wrote it, which is not above the last one of the table,
and bounds those of its live entries. -/
theorem sequencesHold {initial : TableMetadata} {store : Store V} {events : List (TableEvent V)}
    (versioned : initial.formatVersion ≠ .v1)
    (start : TableSequenced initial.formatVersion initial.snapshots initial.lastSequenceNumber
      store)
    (names : FreshNames initial.location store (namesDrawn events))
    (data : ∀ entry ∈ (runTable initial store events).accepted, DataOnly (transactionOf entry))
    (fresh : ∀ entry ∈ (runTable initial store events).accepted, FreshIds entry)
    (single : ∀ entry ∈ (runTable initial store events).accepted,
      OneGroupEach (transactionOf entry)) : SequencesHold (runTable initial store events) := by
  have kept : Keeps (runTable initial store events) := (keeps_start versioned start).run names
  constructor
  · exact kept.sequenced fun entry member =>
      ⟨data entry member, single entry member, fresh entry member⟩
  · intro entry member
    obtain ⟨performed, spec⟩ := (runTable_history initial store events).spec_of_mem member
    exact ⟨performed, spec, fun one within sent =>
      spec.groups_pairwise (single entry member) within sent⟩

omit [PartitionValue V] in
/-- A table without snapshots has no sequence numbers to keep. -/
theorem tableSequenced_empty (none : metadata.snapshots = ∅) (store : Store V) :
    TableSequenced metadata.formatVersion metadata.snapshots
      metadata.lastSequenceNumber store := by
  rw [none]
  exact ⟨fun _ _ found => (by cases found), fun _ _ found => (by cases found)⟩

/-- The request to append one sequence group for each list of data files. -/
def appendGroupsOf (groups : List (List (DataFile LongValue))) (snapshotId : Int)
    (uuid : String) : CommitRequest LongValue :=
  .single (.appendSequenceGroups none (groups.map fun files => ⟨[], files⟩)) snapshotId uuid

/-- An append, a sequence group, an overwrite of a manifest and a truncation, one after the other. -/
theorem sequencesHold_run :
    SequencesHold (runTable (longTable .v2) .empty
      [.prepare 0 (appendOne none 1 "a"), .send 0 1,
        .prepare 0 (appendGroupsOf [[longFile "b" 1]] 2 "b"), .send 0 2,
        .prepare 0 (.single (.overwrite none [longFile "c" 1] (HashMap.fromIter
          [(newManifestLocation "s3://warehouse/table" "b" 0, ["a"])]) none) 3 "c"), .send 0 3,
        .prepare 0 (.single (.truncate none) 4 "d"), .send 0 4]) :=
  sequencesHold (by decide) (tableSequenced_empty rfl _)
    ⟨by decide +kernel, fun _ _ _ _ => ⟨fun _ => rfl, fun _ => rfl⟩⟩ (by decide +kernel)
    (by decide +kernel) (by decide +kernel)

/-- Of two sequence groups both manifests get the number of the first, the snapshot that of the
second. -/
theorem twoGroups_break :
    ¬ SequencesHold (runTable (longTable .v2) .empty
      [.prepare 0 (appendGroupsOf [[longFile "a" 1], [longFile "b" 1]] 1 "u"), .send 0 1]) := by
  intro holds
  generalize state : runTable (longTable .v2) .empty
    [.prepare 0 (appendGroupsOf [[longFile "a" 1], [longFile "b" 1]] 1 "u"), .send 0 1] = after
    at holds
  have table := holds.table after.current (latest_mem_versions _ _)
  have version : after.current.formatVersion = .v2 := by
    rw [← state]
    decide +kernel
  have second : (after.current.snapshots.lookup 1).map (·.sequenceNumber) = some 2 := by
    rw [← state]
    decide +kernel
  have first : ((after.current.snapshots.lookup 1).bind fun snapshot =>
      (after.world.manifestList snapshot.manifestList).map fun file =>
        file.rows.map fun row => ((row.toVersion (file.readVersion .v2)).addedSnapshotId,
          (row.toVersion (file.readVersion .v2)).sequenceNumber)) = some [(1, 1), (1, 1)] := by
    rw [← state]
    decide +kernel
  obtain ⟨snapshot, found, two⟩ := Option.map_eq_some_iff.mp second
  obtain ⟨file, stored, rows⟩ := table.lists 1 snapshot found
  rw [found, Option.bind_some, stored, Option.map_some, Option.some.injEq] at first
  obtain ⟨row, others, listed, numbers, -⟩ := List.map_eq_cons_iff.mp first
  obtain ⟨id, one⟩ := Prod.mk.inj numbers
  obtain ⟨-, writer, here, same⟩ := rows row (by rw [listed]; exact List.mem_cons_self)
  rw [version] at here same
  rw [id] at here
  rw [one, ← Option.some.inj (found.symm.trans here), two] at same
  exact absurd same (by decide)

end IcebergRust

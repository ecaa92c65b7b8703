import IcebergRust.Catalog.Sequences

/-!
# Where the snapshots of a table come from

Any number of clients write to one table of version 2 or 3, and one object store.

* `Bounded` metadata has no snapshot above its last sequence number or its next row id; every
  update keeps that.
* `Made` is what a commit on its way has stored for one of its snapshots, and `Traced` what
  is known of a snapshot of the table: an operation of an accepted commit has written it, from
  the list of a snapshot the table still has.
* `allTraced` says so of every snapshot of every version, whatever runs concurrently.
-/

namespace IcebergRust

open Fallible TableTransaction Optimistic

variable {V : Type}

/-! ### Bounds -/

/-- No snapshot is above the last sequence number or the next row id. -/
structure Bounded (metadata : TableMetadata) : Prop where
  versioned : metadata.formatVersion ≠ .v1
  least : 0 ≤ metadata.lastSequenceNumber
  sequences : ∀ id snapshot, metadata.snapshots.lookup id = some snapshot →
    snapshot.sequenceNumber ≤ metadata.lastSequenceNumber
  rows : metadata.formatVersion = .v3 → ∀ id snapshot,
    metadata.snapshots.lookup id = some snapshot → ∃ first added,
      snapshot.firstRowId = some first ∧ snapshot.addedRows = some added ∧
        first + added ≤ metadata.nextRowId

variable {metadata : TableMetadata} {snapshot : Snapshot} {state : TableState V}

theorem snapshotNextRowId_v3 {next : Int} (version : metadata.formatVersion = .v3)
    (run : snapshotNextRowId metadata snapshot = .ok next) :
    ∃ first added, snapshot.firstRowId = some first ∧ snapshot.addedRows = some added ∧
      0 ≤ added ∧ metadata.nextRowId ≤ first ∧ next = first + added := by
  simp only [snapshotNextRowId, version, ne_eq, not_true, if_false] at run
  split at run
  · cases run
  · cases run
  · rename_i first added firstRowId addedRows
    obtain ⟨negative, run⟩ := guard_eq_ok.mp run
    obtain ⟨lower, run⟩ := guard_eq_ok.mp run
    unfold checkedAddI64 at run
    split at run
    · cases run
      refine ⟨first, added, firstRowId, addedRows, ?_, ?_, rfl⟩ <;> omega
    · cases run

theorem Bounded.applied {state next : ApplyState} {update : TableUpdate}
    (bounded : Bounded state.metadata) (applied : Applied state update next) :
    Bounded next.metadata := by
  cases applied with
  | snapshot snapshot nextRowId advances lineage =>
    have above := advances bounded.versioned
    have found {id : Int} {other : Snapshot}
        (here : (state.metadata.snapshots.insert snapshot.snapshotId snapshot).lookup id =
          some other) : other = snapshot ∨ state.metadata.snapshots.lookup id = some other := by
      by_cases same : id = snapshot.snapshotId
      · rw [same, AList.lookup_insert] at here
        exact .inl (Option.some.inj here).symm
      · exact .inr (by rwa [AList.lookup_insert_ne same] at here)
    refine ⟨bounded.versioned, bounded.least.trans above.le, ?_, ?_⟩
    · intro id other here
      rcases found here with rfl | old
      · exact le_refl _
      · exact (bounded.sequences id other old).trans above.le
    · intro version id other here
      have v3 : state.metadata.formatVersion = .v3 := version
      obtain ⟨first, added, firstRowId, addedRows, positive, lower, rfl⟩ :=
        snapshotNextRowId_v3 v3 lineage
      rcases found here with rfl | old
      · exact ⟨first, added, firstRowId, addedRows, le_refl _⟩
      · obtain ⟨begin, count, begins, counts, below⟩ := bounded.rows v3 id other old
        refine ⟨begin, count, begins, counts, ?_⟩
        dsimp only
        omega
  | removed ids =>
    exact ⟨bounded.versioned, bounded.least,
      fun id snapshot here => bounded.sequences id snapshot (lookup_foldl_erase here),
      fun version id snapshot here => bounded.rows version id snapshot (lookup_foldl_erase here)⟩
  | _ => exact ⟨bounded.versioned, bounded.least, bounded.sequences, bounded.rows⟩

theorem Bounded.updates {after : TableMetadata} {updates : List TableUpdate} {now : Int}
    (bounded : Bounded metadata) (run : applyTableUpdates metadata updates now = .ok after) :
    Bounded after := by
  obtain ⟨state, kept, rfl⟩ := applyTableUpdates_prefix (fun _ state => Bounded state.metadata)
    (fun _ _ _ _ here applied => here.applied applied) run bounded
  exact ⟨kept.versioned, kept.least, kept.sequences, kept.rows⟩

/-! ### One commit -/

variable [PartitionValue V]

/-- What a commit on its way has stored for one of its snapshots. -/
inductive Made (base : TableMetadata) (entropy : Nat → Entropy) (operations : List (Operation V))
    (updates : List TableUpdate) (world : Store V) (snapshot : Snapshot) : Prop
  | intro (read : TableMetadata) (before after : Store V) (operation : Operation V)
      (done rest : List TableUpdate) (asked : operation ∈ operations)
      (sent : updates = done ++ .addSnapshot snapshot :: rest) (reads : Reads base read done)
      (bounded : Bounded read)
      (wrote : Wrote read before after (entropy operation.index) operation snapshot)
      (unused : ∀ uuid ∈ (entropy operation.index).names, before.Unused base.location uuid)
      (readable : ∀ id head, read.snapshots.lookup id = some head → Readable before head)
      (grows : before.Extends after) (kept : after.Extends world)

theorem Made.mono {base : TableMetadata} {entropy : Nat → Entropy} {operations : List (Operation V)}
    {updates : List TableUpdate} {world later : Store V}
    (made : Made base entropy operations updates world snapshot) (grows : world.Extends later)
    (more : List TableUpdate) : Made base entropy operations (updates ++ more) later snapshot := by
  obtain ⟨read, before, after, operation, done, rest, asked, rfl, reads, bounded, wrote, unused,
    readable, writes, kept⟩ := made
  refine ⟨read, before, after, operation, done, rest ++ more, asked, ?_, reads, bounded, wrote,
    unused, readable, writes, kept.trans grows⟩
  rw [List.append_assoc, List.cons_append]

/-- What preparing a request has stored for its snapshots. -/
theorem prepare_made {base : TableMetadata} {request : CommitRequest V} {store stored : Store V}
    {commit : CommitTable}
    (run : request.transaction.prepare base store request.identifier request.entropy =
      .ok (stored, some commit))
    (readable : ∀ id snapshot, base.snapshots.lookup id = some snapshot → Readable store snapshot)
    (names : FreshNames base.location store request.names) (bounded : Bounded base) :
    ∀ snapshot ∈ addedBy commit.updates,
      Made base request.entropy request.transaction.flatten commit.updates stored snapshot := by
  simp only [prepare, guard_eq_ok, bind_eq_ok] at run
  obtain ⟨-, checked, -, -, state, loop, run⟩ := run
  have start : Carries base False store [] :=
    ⟨fun _ member => absurd member List.not_mem_nil, fun _ => List.not_mem_nil,
      fun holds => holds.elim, fun holds => holds.elim⟩
  have made := @commitLoop_induction _ _ _ _ _ Bounded
    (fun rest current updates => Storing base request.entropy request.transaction.flatten store
        rest current ∧ Carries base False current updates ∧ ∀ snapshot ∈ addedBy updates,
          Made base request.entropy request.transaction.flatten updates current snapshot) _ _ _ loop
    (by
      intro _
      dsimp only
      split <;> exact ⟨⟨.refl base, rfl⟩, bounded⟩)
    (by
      dsimp only
      split
      · exact fun none => by cases none
      · exact fun _ => by omega)
    (fun _ _ _ _ here applied => here.updates applied) ?_
    ⟨⟨.refl _ _ _, readable, names⟩, start, fun _ member => absurd member List.not_mem_nil⟩
  · split at run
    · cases run
    · cases run
      exact made.2.2
  · intro operation asked rest read current after updates requirement sent reads sound executed here
    obtain ⟨storing, carries, made⟩ := here
    have unused := storing.names.unused _ List.mem_cons_self
    obtain ⟨changes, next⟩ := carries.step reads executed storing.readable unused
      (fun holds => holds.elim) (fun holds => holds.elim)
    have grows := changes.extends unused
    have heads : ∀ id head, read.snapshots.lookup id = some head → Readable current head := by
      intro id head found
      rw [reads.effect.snapshots] at found
      rcases lookup_foldl_snapshots found with old | ⟨added, -⟩
      · exact storing.readable id head old
      · exact carries.readable head added
    refine ⟨storing.step asked changes, next, fun snapshot member => ?_⟩
    rw [addedBy_append] at member
    rcases List.mem_append.mp member with old | new
    · exact (made snapshot old).mono grows sent
    · have own := unused _ (show (request.entropy operation.index).writerUuid ∈ _ by
        simp [Entropy.names])
      rw [← reads.location] at own
      rcases execute_wrote executed own heads with ⟨-, rfl⟩ | ⟨-, -, none⟩ |
        ⟨branch, old, written, rfl, wrote⟩
      · exact absurd new List.not_mem_nil
      · exact absurd (mem_addedBy.mp new) (none snapshot)
      · obtain rfl := List.mem_singleton.mp (show snapshot ∈ [written] from new)
        exact ⟨read, current, after, operation, updates, _, asked, rfl, reads, sound, wrote, unused,
          heads, grows, .refl _⟩

/-! ### Runs -/

/-- The randomness the operations of an accepted commit have drawn. -/
abbrev entropyOf (entry : AcceptedCommit V) : Nat → Entropy := entry.proposal.request.entropy

/-- An operation of an accepted commit has written a snapshot, from metadata whose snapshots the
table still has. -/
inductive Traced (accepted : List (AcceptedCommit V)) (metadata : TableMetadata) (world : Store V)
    (snapshot : Snapshot) : Prop
  | intro (entry : AcceptedCommit V) (read : TableMetadata) (before after : Store V)
      (operation : Operation V) (member : entry ∈ accepted)
      (asked : operation ∈ (transactionOf entry).flatten) (sent : snapshot ∈ snapshotsOf entry)
      (version : read.formatVersion = metadata.formatVersion) (bounded : Bounded read)
      (advances : read.lastSequenceNumber < snapshot.sequenceNumber)
      (wrote : Wrote read before after (entropyOf entry operation.index) operation snapshot)
      (unused : ∀ uuid ∈ (entropyOf entry operation.index).names,
        before.Unused read.location uuid)
      (heads : ∀ id head, read.snapshots.lookup id = some head →
        metadata.snapshots.lookup head.snapshotId = some head ∧ Readable before head)
      (grows : before.Extends after) (kept : after.Extends world)

theorem Traced.mono {past accepted : List (AcceptedCommit V)} {earlier : TableMetadata}
    {world later : Store V} (traced : Traced past earlier world snapshot)
    (more : ∀ entry ∈ past, entry ∈ accepted)
    (version : metadata.formatVersion = earlier.formatVersion)
    (keeps : KeepsSnapshots earlier metadata) (grows : world.Extends later) :
    Traced accepted metadata later snapshot := by
  obtain ⟨entry, read, before, after, operation, member, asked, sent, same, bounded, advances, wrote,
    unused, heads, writes, kept⟩ := traced
  exact ⟨entry, read, before, after, operation, more entry member, asked, sent,
    same.trans version.symm, bounded, advances, wrote, unused,
    fun id head found => ⟨keeps _ _ (heads id head found).1, (heads id head found).2⟩, writes,
    kept.trans grows⟩

/-- The invariant of runs from a table without snapshots. -/
structure Tracing (state : TableState V) : Prop where
  keeps : Keeps state
  keyed : KeyedById state.initial
  bounded : ∀ version ∈ state.versions, Bounded version
  pending : ∀ proposal ∈ state.pending, ∀ snapshot ∈ addedBy proposal.commit.updates,
    Made proposal.base proposal.request.entropy proposal.request.transaction.flatten
      proposal.commit.updates state.world snapshot
  traced : (∀ entry ∈ state.accepted, DataOnly (transactionOf entry) ∧ FreshIds entry) →
    ∀ version ∈ state.versions, ∀ id snapshot, version.snapshots.lookup id = some snapshot →
      Traced state.accepted version state.world snapshot

theorem Tracing.prepare (tracing : Tracing state) (age : Nat) (request : CommitRequest V)
    (names : FreshNames state.initial.location state.world request.names) :
    Tracing (step (tableProtocol V) state (.prepare age request)) := by
  obtain ⟨changes, keeps⟩ := tracing.keeps.prepare age request names
  have grows := changes.extends names.unused_flatten
  rcases step_prepare state age request with same | ⟨base, known, world, sent, prepared, same⟩
  · rw [same]
    exact tracing
  · rw [same] at grows keeps ⊢
    refine ⟨keeps, tracing.keyed, tracing.bounded, ?_, ?_⟩
    · intro proposal member snapshot added
      rcases List.mem_append.mp member with old | new
      · have made := (tracing.pending proposal old snapshot added).mono grows []
        rwa [List.append_nil] at made
      · cases sent with
        | none => exact absurd new List.not_mem_nil
        | some commit =>
          obtain rfl := List.mem_singleton.mp new
          exact prepare_made (toOption_eq_some.mp prepared) (tracing.keeps.readable base known)
            (tracing.keeps.located base known ▸ names) (tracing.bounded base known) snapshot added
    · intro good version member id snapshot found
      exact (tracing.traced good version member id snapshot found).mono (fun _ here => here) rfl
        (fun _ _ here => here) grows

/-- A snapshot of a commit that is accepted. -/
theorem Made.traced {entry : AcceptedCommit V} {accepted : List (AcceptedCommit V)}
    {performed : List (Performed V)} {world : Store V}
    (made : Made entry.proposal.base (entropyOf entry) (transactionOf entry).flatten
      entry.proposal.commit.updates world snapshot) (spec : AcceptedSpec entry performed)
    (member : entry ∈ accepted) (data : DataOnly (transactionOf entry)) (fresh : FreshIds entry)
    (versioned : entry.current.formatVersion ≠ .v1)
    (version : entry.proposal.base.formatVersion = entry.current.formatVersion)
    (keyed : KeyedById entry.proposal.base)
    (stays : KeepsSnapshots entry.proposal.base entry.current)
    (below : entry.proposal.base.lastSequenceNumber ≤ entry.current.lastSequenceNumber) :
    Traced accepted entry.next world snapshot := by
  obtain ⟨read, before, after, operation, done, rest, asked, sent, reads, bounded, wrote, unused,
    readable, writes, kept⟩ := made
  have lands := spec.lands versioned fresh stays below
  have split : snapshotsOf entry = addedBy done ++ ([snapshot] ++ addedBy rest) := by
    rw [snapshotsOf, updatesSent, sent, addedBy_append]
    rfl
  have within : snapshot ∈ snapshotsOf entry := by
    rw [split]
    simp
  rw [split, ← List.append_assoc] at lands
  refine ⟨entry, read, before, after, operation, member, asked, within, ?_, bounded, ?_, wrote, ?_,
    ?_, writes, kept⟩
  · rw [reads.effect.formatVersion, version, spec.effect.formatVersion]
  · rw [reads.effect.lastSequenceNumber]
    exact lands.left.next.2
  · rw [reads.location]
    exact unused
  · intro id head found
    refine ⟨?_, readable id head found⟩
    rw [reads.effect.snapshots] at found
    rcases lookup_foldl_snapshots found with old | ⟨added, -⟩
    · have own := keyed id head old
      exact spec.keepsSnapshots data fresh _ _ (stays _ _ (own ▸ old))
    · rw [spec.snapshots data]
      refine lookup_insertAll_of_mem fresh.1 ?_
      rw [split]
      exact List.mem_append_left _ added

theorem Tracing.send (tracing : Tracing state) (place : Nat) (now : Int) :
    Tracing (step (tableProtocol V) state (.send place now)) := by
  obtain ⟨-, keeps⟩ := tracing.keeps.send place now
  rcases step_send state place now with same | same | ⟨proposal, sent, next, applied, same⟩
  · rw [same]
    exact tracing
  · rw [same] at keeps ⊢
    exact ⟨keeps, tracing.keyed, tracing.bounded,
      fun proposal member => tracing.pending proposal (List.mem_of_mem_eraseIdx member),
      tracing.traced⟩
  · rw [same] at keeps ⊢
    have current : state.current ∈ state.versions := latest_mem_versions state.initial state.accepted
    obtain ⟨-, run⟩ := tableProtocol_apply_eq_some.mp applied
    refine ⟨keeps, tracing.keyed, ?_,
      fun other member => tracing.pending other (List.mem_of_mem_eraseIdx member), ?_⟩
    · intro version member
      rcases List.mem_cons.mp member with rfl | old
      · exact (tracing.bounded _ current).updates run
      · exact tracing.bounded version old
    · intro good version member id snapshot found
      have earlier : ∀ entry ∈ state.accepted, DataOnly (transactionOf entry) ∧ FreshIds entry :=
        fun entry old => good entry (List.mem_cons_of_mem _ old)
      obtain ⟨performed, spec⟩ := TableHistory.spec_of_mem keeps.formed.history List.mem_cons_self
      obtain ⟨data, fresh⟩ := good _ List.mem_cons_self
      have history := tracing.keeps.formed.history
      have known := (tracing.keeps.formed.pending proposal sent).1
      have stays : KeepsSnapshots proposal.base state.current :=
        keepsSnapshots_versions history (fun entry old => (earlier entry old).1)
          (fun entry old => (earlier entry old).2) _ known
      have kept : KeepsSnapshots state.current next := spec.keepsSnapshots data fresh
      rcases List.mem_cons.mp member with rfl | old
      · have effect := applyTableUpdates_effect run
        rw [effect.snapshots] at found
        rcases lookup_foldl_snapshots found with here | ⟨new, -⟩
        · exact (tracing.traced earlier _ current id snapshot here).mono
            (fun _ => List.mem_cons_of_mem _) effect.formatVersion kept (.refl _)
        · exact (tracing.pending proposal sent snapshot new).traced spec List.mem_cons_self data
            fresh (tracing.bounded _ current).versioned
            ((formatVersion_versions history _ known).trans
              (formatVersion_versions history _ current).symm)
            (keyed_versions history (fun entry old => (earlier entry old).1) tracing.keyed _ known)
            stays (lastSequenceNumber_versions history tracing.keeps.versioned _ known)
      · exact (tracing.traced earlier version old id snapshot found).mono
          (fun _ => List.mem_cons_of_mem _) rfl (fun _ _ here => here) (.refl _)

/-- The invariant holds after every run that draws fresh names. -/
theorem Tracing.run (tracing : Tracing state) {events : List (TableEvent V)}
    (names : FreshNames state.initial.location state.world (namesDrawn events)) :
    Tracing (run (tableProtocol V) state events) :=
  (tracing.keeps.induction (P := Tracing) (fun _ _ tracing => tracing.prepare)
    (fun _ _ tracing => tracing.send) tracing names).2

/-- Metadata of version 2 or 3 without snapshots, as tables are created. -/
theorem bounded_empty (versioned : metadata.formatVersion ≠ .v1)
    (least : 0 ≤ metadata.lastSequenceNumber) (empty : metadata.snapshots = ∅) :
    Bounded metadata := by
  refine ⟨versioned, least, ?_, ?_⟩
  · intro id snapshot found
    rw [empty] at found
    cases found
  · intro _ id snapshot found
    rw [empty] at found
    cases found

theorem tracing_start {initial : TableMetadata} {store : Store V}
    (versioned : initial.formatVersion ≠ .v1) (least : 0 ≤ initial.lastSequenceNumber)
    (empty : initial.snapshots = ∅) : Tracing (.start initial store : TableState V) := by
  have nothing (id snapshot) (found : initial.snapshots.lookup id = some snapshot) : False := by
    rw [empty] at found
    cases found
  refine ⟨keeps_start versioned (tableSequenced_empty empty store),
    fun id snapshot found => (nothing id snapshot found).elim, ?_,
    fun _ member => absurd member List.not_mem_nil, ?_⟩
  · intro version member
    rw [List.mem_singleton.mp member]
    exact bounded_empty versioned least empty
  · intro _ version member id snapshot found
    obtain rfl := List.mem_singleton.mp member
    exact (nothing id snapshot found).elim

/-- In every run of data operations on a table of version 2 or 3 that begins without snapshots, with
UUIDs and snapshot ids that are drawn fresh, every snapshot of every version is traced. -/
theorem allTraced {initial : TableMetadata} {store : Store V} {events : List (TableEvent V)}
    (versioned : initial.formatVersion ≠ .v1) (least : 0 ≤ initial.lastSequenceNumber)
    (empty : initial.snapshots = ∅)
    (names : FreshNames initial.location store (namesDrawn events))
    (data : ∀ entry ∈ (runTable initial store events).accepted, DataOnly (transactionOf entry))
    (fresh : ∀ entry ∈ (runTable initial store events).accepted, FreshIds entry) :
    ∀ version ∈ (runTable initial store events).versions, ∀ id snapshot,
      version.snapshots.lookup id = some snapshot →
        Traced (runTable initial store events).accepted version (runTable initial store events).world
          snapshot := by
  have start : Tracing (.start initial store : TableState V) := tracing_start versioned least empty
  exact (start.run names).traced fun entry member => ⟨data entry member, fresh entry member⟩

end IcebergRust

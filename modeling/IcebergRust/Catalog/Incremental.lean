import IcebergRust.Catalog.Snapshots
import IcebergRust.Table.Increment

/-!
# Incremental scans

What a scan between two snapshots of a branch selects, in runs of data operations.

* `Attributed` gives each live file of a snapshot the snapshot that added it: the files of the
  parent keep theirs, new ones are of the operation that wrote the snapshot.
* `Succeeds` is what sequence numbers say about one snapshot and its parent, `Aged` about all
  ancestors: a file is newer than an ancestor exactly when it was added after it.
* `incrementsExact`: in a table of version 2 or 3 a scan from an ancestor selects the live files
  that were added after it, each once.  In version 1 all rows and entries are numbered 0, and it
  selects nothing (`v1_increment_lost`).
-/

namespace IcebergRust

open Fallible TableTransaction Optimistic

variable {V : Type}

/-! ### What an increment is -/

/-- A snapshot is another one or an ancestor of it. -/
inductive Ancestor (metadata : TableMetadata) (first : Snapshot) : Snapshot → Prop
  | self : Ancestor metadata first first
  | parent {id : Int} {parent snapshot : Snapshot}
      (pointer : snapshot.parentSnapshotId = some id)
      (found : metadata.snapshots.lookup id = some parent)
      (earlier : Ancestor metadata first parent) : Ancestor metadata first snapshot

/-- The live files of a snapshot. -/
def Store.filesOf (store : Store V) (metadata : TableMetadata) (snapshot : Snapshot) :
    Multiset (DataFile V) :=
  (store.origins metadata.formatVersion snapshot).map Prod.fst

/-- Files of the operation of an accepted commit that has written a snapshot. -/
def AddedWith (accepted : List (AcceptedCommit V)) (metadata : TableMetadata) (snapshot : Snapshot)
    (came : Multiset (DataFile V)) : Prop :=
  ∃ entry ∈ accepted, ∃ operation ∈ (transactionOf entry).flatten, snapshot ∈ snapshotsOf entry ∧
    snapshot.snapshotId = (entropyOf entry operation.index).snapshotId ∧
    came ≤ Multiset.ofList (operation.files.map (·.identity metadata.formatVersion))

/-- The live files of a snapshot, each with the snapshot that added it. -/
inductive Attributed (accepted : List (AcceptedCommit V)) (metadata : TableMetadata)
    (store : Store V) : Snapshot → Multiset (DataFile V × Snapshot) → Prop
  | first {snapshot : Snapshot} {came : Multiset (DataFile V)}
      (pointer : snapshot.parentSnapshotId = none) (added : AddedWith accepted metadata snapshot came)
      (live : came = store.filesOf metadata snapshot) :
      Attributed accepted metadata store snapshot (came.map (·, snapshot))
  | next {id : Int} {parent snapshot : Snapshot} {origin kept : Multiset (DataFile V × Snapshot)}
      {came : Multiset (DataFile V)} (pointer : snapshot.parentSnapshotId = some id)
      (found : metadata.snapshots.lookup id = some parent)
      (earlier : Attributed accepted metadata store parent origin) (stays : kept ≤ origin)
      (added : AddedWith accepted metadata snapshot came)
      (live : kept.map Prod.fst + came = store.filesOf metadata snapshot) :
      Attributed accepted metadata store snapshot (kept + came.map (·, snapshot))

open Classical in
/-- The files added after a snapshot. -/
noncomputable def addedAfter (metadata : TableMetadata) (start : Snapshot)
    (origin : Multiset (DataFile V × Snapshot)) : Multiset (DataFile V) :=
  (origin.filter fun x => Ancestor metadata start x.2 ∧ start ≠ x.2).map Prod.fst

variable [PartitionValue V]

/-- A scan from an ancestor of a snapshot selects the live files added after the ancestor, each once,
and it can be made where the snapshot can be scanned. -/
structure IncrementExact (accepted : List (AcceptedCommit V)) (metadata : TableMetadata)
    (store : Store V) (finish : Int) (last : Snapshot) : Prop where
  exact : ∃ origin, Attributed accepted metadata store last origin ∧
    ∀ start first, metadata.snapshots.lookup start = some first → Ancestor metadata first last →
      ∀ selected, scanEntries metadata store (some start) (some finish) = .ok selected →
        liveFiles metadata.formatVersion (selected.map (·.2)) = addedAfter metadata first origin
  total : ∀ start all, scanEntries metadata store none (some finish) = .ok all →
    ∃ selected, scanEntries metadata store (some start) (some finish) = .ok selected

/-- All scans between a snapshot and an ancestor are exact, in every version of a table. -/
def IncrementsExact (state : TableState V) : Prop :=
  ∀ version ∈ state.versions, ∀ id snapshot, version.snapshots.lookup id = some snapshot →
    IncrementExact state.accepted version state.world id snapshot

/-! ### Parents -/

section Parents

variable {metadata : TableMetadata} {snapshot first : Snapshot}

/-- A snapshot is numbered after its parent, which the table has. -/
structure FollowsParent (metadata : TableMetadata) (snapshot : Snapshot) (parent : Option Snapshot)
    (last : Int) : Prop where
  least : 0 ≤ last
  above : last < snapshot.sequenceNumber
  pointer : snapshot.parentSnapshotId = parent.map (·.snapshotId)
  known : ∀ head, parent = some head →
    metadata.snapshots.lookup head.snapshotId = some head ∧ head.sequenceNumber ≤ last

/-- Every snapshot of a table follows its parent. -/
def AllFollow (metadata : TableMetadata) : Prop :=
  ∀ id snapshot, metadata.snapshots.lookup id = some snapshot →
    ∃ parent last, FollowsParent metadata snapshot parent last

/-- The ancestors of a snapshot are itself and those of its parent. -/
theorem FollowsParent.ancestor {parent : Option Snapshot} {last : Int}
    (follows : FollowsParent metadata snapshot parent last)
    (earlier : Ancestor metadata first snapshot) :
    first = snapshot ∨ ∃ head, parent = some head ∧ Ancestor metadata first head := by
  cases earlier with
  | self => exact .inl rfl
  | @parent id found _ pointer here before =>
    rw [follows.pointer] at pointer
    cases parent with
    | none => cases pointer
    | some head =>
      obtain rfl := Option.some.inj pointer
      rw [(follows.known head rfl).1] at here
      obtain rfl := Option.some.inj here
      exact .inr ⟨head, rfl, before⟩

theorem AllFollow.parent_lt (all : AllFollow metadata) {id pointed : Int} {parent : Snapshot}
    (found : metadata.snapshots.lookup id = some snapshot)
    (pointer : snapshot.parentSnapshotId = some pointed)
    (here : metadata.snapshots.lookup pointed = some parent) :
    parent.sequenceNumber < snapshot.sequenceNumber := by
  obtain ⟨before, last, follows⟩ := all id snapshot found
  have own := follows.pointer
  rw [pointer] at own
  cases before with
  | none => cases own
  | some head =>
    obtain rfl := Option.some.inj own
    obtain ⟨same, below⟩ := follows.known head rfl
    rw [same] at here
    obtain rfl := Option.some.inj here
    exact below.trans_lt follows.above

/-- A proper ancestor has a smaller sequence number. -/
theorem AllFollow.sequence (all : AllFollow metadata) {id : Int}
    (found : metadata.snapshots.lookup id = some snapshot)
    (earlier : Ancestor metadata first snapshot) :
    first = snapshot ∨ first.sequenceNumber < snapshot.sequenceNumber := by
  induction earlier generalizing id with
  | self => exact .inl rfl
  | parent pointer here _ ih =>
    have less := all.parent_lt found pointer here
    rcases ih here with rfl | smaller
    · exact .inr less
    · exact .inr (smaller.trans less)

/-- Induction along parents: what holds of a snapshot if it holds of those numbered before it. -/
theorem AllFollow.induction {P : Snapshot → Prop} (all : AllFollow metadata)
    (step : ∀ id snapshot, metadata.snapshots.lookup id = some snapshot →
      (∀ place other, metadata.snapshots.lookup place = some other →
        other.sequenceNumber < snapshot.sequenceNumber → P other) → P snapshot)
    {id : Int} (found : metadata.snapshots.lookup id = some snapshot) : P snapshot := by
  obtain ⟨n, bound⟩ : ∃ n : Nat, snapshot.sequenceNumber ≤ n := ⟨_, Int.self_le_toNat _⟩
  induction n generalizing id snapshot with
  | zero =>
    obtain ⟨parent, last, follows⟩ := all id snapshot found
    have least := follows.least
    have above := follows.above
    omega
  | succ n ih => exact step id snapshot found fun place other here less => ih here (by omega)

end Parents

/-! ### One snapshot and its parent -/

/-- What the sequence numbers of a snapshot say about its files and those of its parent. -/
structure Succeeds (accepted : List (AcceptedCommit V)) (metadata : TableMetadata)
    (world : Store V) (snapshot : Snapshot) (parent : Option Snapshot) (last : Int)
    (came : Multiset (DataFile V × Int)) : Prop where
  least : 0 ≤ last
  above : last < snapshot.sequenceNumber
  pointer : snapshot.parentSnapshotId = parent.map (·.snapshotId)
  known : ∀ head, parent = some head →
    metadata.snapshots.lookup head.snapshotId = some head ∧ head.sequenceNumber ≤ last
  added : ∀ some ≤ came, AddedWith accepted metadata snapshot (some.map Prod.fst)
  newer : ∀ x ∈ came, last < x.2 ∧ x.2 ≤ snapshot.sequenceNumber
  files : world.origins metadata.formatVersion snapshot ≤
    world.parentOrigins metadata.formatVersion parent + came
  rows : ∀ row ∈ world.rowsOf metadata.formatVersion snapshot,
    (∃ head, parent = some head ∧ ∃ old ∈ world.rowsOf metadata.formatVersion head,
      row.sequenceNumber = old.sequenceNumber ∧
        originsAt metadata.formatVersion world row = originsAt metadata.formatVersion world old) ∨
    last < row.sequenceNumber

variable {accepted : List (AcceptedCommit V)} {metadata : TableMetadata} {snapshot : Snapshot}
  {origin : Multiset (DataFile V × Snapshot)}

/-- Every traced snapshot succeeds its parent. -/
theorem Traced.succeeds {world : Store V} (traced : Traced accepted metadata world snapshot)
    (sized : ∀ entry ∈ accepted, ∀ operation ∈ (transactionOf entry).flatten, operation.Sized) :
    ∃ parent last came, Succeeds accepted metadata world snapshot parent last came := by
  obtain ⟨entry, read, before, after, operation, member, asked, sent, version, bounded, advances,
    wrote, unused, heads, writes, kept⟩ := traced
  have own := unused (entropyOf entry operation.index).writerUuid (by simp [Entropy.names])
  have readable : ∀ id head, read.snapshots.lookup id = some head → Readable before head :=
    fun id head found => (heads id head found).2
  obtain ⟨parent, came, renews⟩ := wrote.renews bounded.versioned bounded.least
    (sized entry member operation asked) advances own readable
  have stored := (wrote.storesSnapshot own readable).readable
  have id : snapshot.snapshotId = (entropyOf entry operation.index).snapshotId := by
    cases wrote with
    | list old rows final branch head written sequence => exact written.id
    | replacement old avro parts final branch head written parent files => exact written.id
  obtain ⟨pointer, known, new, files, rows⟩ := renews
  rw [version] at files rows
  have before_world := writes.trans kept
  have old (head : Snapshot) (same : parent = some head) : Readable before head := by
    obtain ⟨id, found⟩ := known head same
    exact readable id head found
  refine ⟨parent, read.lastSequenceNumber, came, bounded.least, advances, pointer, ?_, ?_,
    fun x within => ⟨new.above x within, new.below x within⟩, ?_, ?_⟩
  · intro head same
    obtain ⟨id, found⟩ := known head same
    exact ⟨(heads id head found).1, bounded.sequences id head found⟩
  · intro some fewer
    refine ⟨entry, member, operation, asked, sent, id, ?_⟩
    rw [← version]
    exact (Multiset.map_le_map fewer).trans new.files
  · rw [stored.origins kept]
    refine files.trans (add_le_add (le_of_eq ?_) (le_refl _))
    cases parent with
    | none => rfl
    | some head => exact ((old head rfl).origins before_world _).symm
  · intro row within
    rw [stored.rowsOf kept] at within
    rcases rows row within with ⟨head, same, one, belongs, path, number⟩ | above
    · refine .inl ⟨head, same, one, ?_, number, originsAt_congr path number rfl⟩
      rwa [(old head same).rowsOf before_world, ← version]
    · refine .inr ?_
      exact above

/-! ### All ancestors -/

/-- Every snapshot of a table succeeds its parent. -/
def AllSucceed (accepted : List (AcceptedCommit V)) (metadata : TableMetadata) (world : Store V) :
    Prop :=
  ∀ id snapshot, metadata.snapshots.lookup id = some snapshot →
    ∃ parent last came, Succeeds accepted metadata world snapshot parent last came

section Ages

variable {accepted : List (AcceptedCommit V)} {metadata : TableMetadata} {world : Store V}
  {snapshot first : Snapshot} {came : Multiset (DataFile V × Int)}

omit [PartitionValue V] in
theorem Succeeds.follows {parent : Option Snapshot} {last : Int}
    (succeeds : Succeeds accepted metadata world snapshot parent last came) :
    FollowsParent metadata snapshot parent last :=
  ⟨succeeds.least, succeeds.above, succeeds.pointer, succeeds.known⟩

omit [PartitionValue V] in
theorem AllSucceed.follow (all : AllSucceed accepted metadata world) : AllFollow metadata := by
  intro id snapshot found
  obtain ⟨parent, last, came, succeeds⟩ := all id snapshot found
  exact ⟨parent, last, succeeds.follows⟩

/-- The files of a snapshot and its ancestors by their sequence numbers; `adder` gives the snapshot
a sequence number belongs to. -/
structure Aged (accepted : List (AcceptedCommit V)) (metadata : TableMetadata) (world : Store V)
    (snapshot : Snapshot) (adder : Int → Snapshot) : Prop where
  attributed : Attributed accepted metadata world snapshot
    ((world.origins metadata.formatVersion snapshot).map fun x => (x.1, adder x.2))
  highest : ∀ x ∈ world.origins metadata.formatVersion snapshot, x.2 ≤ snapshot.sequenceNumber
  adds : ∀ x ∈ world.origins metadata.formatVersion snapshot, Ancestor metadata (adder x.2) snapshot
  newer : ∀ x ∈ world.origins metadata.formatVersion snapshot,
    ∀ first, Ancestor metadata first snapshot →
      (first.sequenceNumber < x.2 ↔ Ancestor metadata first (adder x.2) ∧ first ≠ adder x.2)
  rows : ∀ row ∈ world.rowsOf metadata.formatVersion snapshot,
    ∀ first, Ancestor metadata first snapshot → row.sequenceNumber ≤ first.sequenceNumber →
      ∀ x ∈ originsAt metadata.formatVersion world row, x.2 ≤ first.sequenceNumber

omit [PartitionValue V] in
/-- A snapshot without a parent. -/
theorem Succeeds.aged_first {last : Int}
    (succeeds : Succeeds accepted metadata world snapshot none last came) :
    Aged accepted metadata world snapshot fun _ => snapshot := by
  have files : world.origins metadata.formatVersion snapshot ≤ came := by
    have whole := succeeds.files
    rwa [Store.parentOrigins, zero_add] at whole
  have number : ∀ x ∈ world.origins metadata.formatVersion snapshot,
      x.2 ≤ snapshot.sequenceNumber := fun x member =>
    (succeeds.newer x (Multiset.mem_of_le files member)).2
  have alone : ∀ first, Ancestor metadata first snapshot → first = snapshot := by
    intro first earlier
    rcases succeeds.follows.ancestor earlier with same | ⟨head, none, -⟩
    · exact same
    · cases none
  refine ⟨?_, number, fun _ _ => .self, ?_, ?_⟩
  · have own := Attributed.first succeeds.pointer (succeeds.added _ files) rfl
    rwa [Multiset.map_map] at own
  · intro x member first earlier
    obtain rfl := alone first earlier
    have below := number x member
    constructor
    · intro above
      omega
    · exact fun other => absurd rfl other.2
  · intro row member first earlier _ x within
    obtain rfl := alone first earlier
    exact number x (mem_rowOrigins.mpr ⟨row, Multiset.mem_coe.mpr member, within⟩)

omit [PartitionValue V] in
theorem Ancestor.trans {middle last : Snapshot} (one : Ancestor metadata first middle)
    (two : Ancestor metadata middle last) : Ancestor metadata first last := by
  induction two with
  | self => exact one
  | parent pointer found _ ih => exact .parent pointer found ih

/-- What `p` holds of in a part of a sum is in the summand `p` can hold in. -/
theorem filter_le_of_le_add {α : Type} {p : α → Prop} [DecidablePred p] {part one other : Multiset α}
    (le : part ≤ one + other) (none : ∀ x ∈ other, ¬ p x) : part.filter p ≤ one := by
  have fewer := Multiset.filter_le_filter p le
  rw [Multiset.filter_add, Multiset.filter_eq_nil.mpr none, add_zero] at fewer
  exact fewer.trans (Multiset.filter_le p one)

omit [PartitionValue V] in
/-- A snapshot with a parent. -/
theorem Succeeds.aged_next {last : Int} {head : Snapshot} {adder : Int → Snapshot}
    (succeeds : Succeeds accepted metadata world snapshot (some head) last came)
    (older : Aged accepted metadata world head adder)
    (below : ∀ first, Ancestor metadata first head → first.sequenceNumber ≤ head.sequenceNumber) :
    Aged accepted metadata world snapshot fun n => if n ≤ last then adder n else snapshot := by
  obtain ⟨found, old⟩ := succeeds.known head rfl
  have above := succeeds.above
  have step {first : Snapshot} (earlier : Ancestor metadata first head) :
      Ancestor metadata first snapshot := .parent succeeds.pointer found earlier
  have low : ∀ x ∈ world.origins metadata.formatVersion head, x.2 ≤ last :=
    fun x member => (older.highest x member).trans old
  have kept : (world.origins metadata.formatVersion snapshot).filter (·.2 ≤ last) ≤
      world.origins metadata.formatVersion head :=
    filter_le_of_le_add succeeds.files fun x member => not_le.mpr (succeeds.newer x member).1
  have added : (world.origins metadata.formatVersion snapshot).filter (fun x => ¬ x.2 ≤ last) ≤
      came := by
    refine filter_le_of_le_add (succeeds.files.trans (add_comm _ _).le) fun x member high => ?_
    exact high (low x member)
  have inParent {x : DataFile V × Int}
      (member : x ∈ world.origins metadata.formatVersion snapshot) (small : x.2 ≤ last) :
      x ∈ world.origins metadata.formatVersion head :=
    Multiset.mem_of_le kept (Multiset.mem_filter.mpr ⟨member, small⟩)
  have highest : ∀ x ∈ world.origins metadata.formatVersion snapshot,
      x.2 ≤ snapshot.sequenceNumber := by
    intro x member
    by_cases small : x.2 ≤ last
    · exact small.trans above.le
    · exact (succeeds.newer x (Multiset.mem_of_le added
        (Multiset.mem_filter.mpr ⟨member, small⟩))).2
  refine ⟨?_, highest, ?_, ?_, ?_⟩
  · have whole := Multiset.filter_add_not (fun x : DataFile V × Int => x.2 ≤ last)
      (world.origins metadata.formatVersion snapshot)
    have own := Attributed.next succeeds.pointer found older.attributed
      (Multiset.map_le_map kept) (succeeds.added _ added) (by
        rw [Multiset.map_map, Store.filesOf]
        exact (Multiset.map_add Prod.fst _ _).symm.trans (congrArg (Multiset.map Prod.fst) whole))
    refine cast (congrArg _ ?_) own
    rw [Multiset.map_map]
    refine Eq.trans ?_ ((Multiset.map_add _ _ _).symm.trans (congrArg (Multiset.map _) whole))
    congr 1
    · refine Multiset.map_congr rfl fun x member => ?_
      rw [if_pos (Multiset.mem_filter.mp member).2]
    · refine Multiset.map_congr rfl fun x member => ?_
      rw [if_neg (Multiset.mem_filter.mp member).2]
      rfl
  · intro x member
    by_cases small : x.2 ≤ last
    · rw [if_pos small]
      exact step (older.adds x (inParent member small))
    · rw [if_neg small]
      exact .self
  · intro x member first earlier
    rcases succeeds.follows.ancestor earlier with rfl | ⟨one, same, before⟩
    · have bound := highest x member
      by_cases small : x.2 ≤ last
      · rw [if_pos small]
        constructor
        · intro less
          omega
        · rintro ⟨less, -⟩
          have := below _ (less.trans (older.adds x (inParent member small)))
          omega
      · rw [if_neg small]
        constructor
        · intro less
          omega
        · exact fun other => absurd rfl other.2
    · obtain rfl := Option.some.inj same
      have smaller := below first before
      by_cases small : x.2 ≤ last
      · rw [if_pos small]
        exact older.newer x (inParent member small) first before
      · rw [if_neg small]
        constructor
        · intro _
          refine ⟨step before, ?_⟩
          rintro rfl
          omega
        · intro _
          omega
  · intro row member first earlier small x within
    have here : x ∈ world.origins metadata.formatVersion snapshot :=
      mem_rowOrigins.mpr ⟨row, Multiset.mem_coe.mpr member, within⟩
    rcases succeeds.follows.ancestor earlier with rfl | ⟨one, same, before⟩
    · exact highest x here
    · obtain rfl := Option.some.inj same
      rcases succeeds.rows row member with ⟨one, same, source, belongs, number, files⟩ | high
      · obtain rfl := Option.some.inj same
        rw [files] at within
        exact older.rows source belongs first before (number ▸ small) x within
      · have smaller := below first before
        omega

omit [PartitionValue V] in
/-- Every snapshot is aged along its ancestors. -/
theorem AllSucceed.aged (all : AllSucceed accepted metadata world) {id : Int}
    (found : metadata.snapshots.lookup id = some snapshot) :
    ∃ adder, Aged accepted metadata world snapshot adder := by
  refine all.follow.induction (P := fun snapshot => ∃ adder, Aged accepted metadata world snapshot
    adder) (fun id snapshot found before => ?_) found
  obtain ⟨parent, last, came, succeeds⟩ := all id snapshot found
  cases parent with
  | none => exact ⟨_, succeeds.aged_first⟩
  | some head =>
    obtain ⟨here, below⟩ := succeeds.known head rfl
    obtain ⟨adder, older⟩ := before _ head here (below.trans_lt succeeds.above)
    refine ⟨_, succeeds.aged_next older fun first earlier => ?_⟩
    rcases all.follow.sequence here earlier with rfl | less
    · exact le_refl _
    · exact less.le

/-! ### Scans -/

omit [PartitionValue V] in
theorem liveFiles_eq (version : FormatVersion) (inherited : Int)
    (entries : List (ManifestEntry V)) :
    liveFiles version entries = (originsOf version inherited entries).map Prod.fst := by
  rw [originsOf, Multiset.map_coe, List.map_map]
  rfl

omit [PartitionValue V] in
/-- The rows and the numbers a scan from an ancestor selects by leave exactly the files the ancestor
does not have. -/
theorem Aged.selected {adder : Int → Snapshot} {start : Int}
    (aged : Aged accepted metadata world snapshot adder)
    (found : metadata.snapshots.lookup start = some first)
    (earlier : Ancestor metadata first snapshot) (positive : 0 < first.sequenceNumber) :
    (rowOrigins metadata.formatVersion world (Multiset.ofList
        ((world.rowsOf metadata.formatVersion snapshot).filter (newRow metadata (some start))))).filter
        (fun x => inSequenceRange
          ((some start).bind metadata.sequenceNumber, some snapshot.sequenceNumber) x.2) =
      (world.origins metadata.formatVersion snapshot).filter
        fun x => first.sequenceNumber < x.2 := by
  have number : (some start).bind metadata.sequenceNumber = some first.sequenceNumber := by
    rw [Option.bind_some, TableMetadata.sequenceNumber, found]
    rfl
  have new (row : ManifestListEntry V) :
      newRow metadata (some start) row = decide (first.sequenceNumber < row.sequenceNumber) := by
    rw [newRow, startNumber, Option.bind_some, found, Option.map_some,
      Option.filter_some_pos (by simpa using positive.ne'), Option.all_some]
  have inRange : ∀ x ∈ world.origins metadata.formatVersion snapshot,
      (inSequenceRange (some first.sequenceNumber, some snapshot.sequenceNumber) x.2 = true ↔
        first.sequenceNumber < x.2) := by
    intro x member
    have below := aged.highest x member
    simp [inSequenceRange, below]
  have rest : (rowOrigins metadata.formatVersion world (Multiset.ofList
      ((world.rowsOf metadata.formatVersion snapshot).filter
        fun row => !newRow metadata (some start) row))).filter
      (fun x => inSequenceRange (some first.sequenceNumber, some snapshot.sequenceNumber) x.2) =
        0 := by
    rw [Multiset.filter_eq_nil]
    intro x member selected
    obtain ⟨row, within, here⟩ := mem_rowOrigins.mp member
    obtain ⟨listed, old⟩ := List.mem_filter.mp (Multiset.mem_coe.mp within)
    rw [new, Bool.not_eq_true', decide_eq_false_iff_not, not_lt] at old
    have low := aged.rows row listed first earlier old x here
    have high := (inRange x (mem_rowOrigins.mpr ⟨row, Multiset.mem_coe.mpr listed, here⟩)).mp selected
    omega
  rw [number, ← Multiset.filter_congr inRange, Store.origins,
    ← rowOrigins_filter_add _ _ (newRow metadata (some start))
      (world.rowsOf metadata.formatVersion snapshot), Multiset.filter_add, rest, add_zero]

/-- The scan between an ancestor and a snapshot. -/
theorem AllSucceed.increment (all : AllSucceed accepted metadata world) {finish : Int}
    (found : metadata.snapshots.lookup finish = some snapshot) :
    IncrementExact accepted metadata world finish snapshot := by
  classical
  obtain ⟨adder, aged⟩ := all.aged found
  refine ⟨⟨_, aged.attributed, ?_⟩, fun start every run => scanEntries_of_all found run⟩
  intro start first known earlier selected run
  obtain ⟨parent, last, came, succeeds⟩ := all start first known
  have positive : 0 < first.sequenceNumber := succeeds.least.trans_lt succeeds.above
  rw [liveFiles_eq _ 0, scanEntries_origins found run, aged.selected known earlier positive,
    addedAfter, Multiset.filter_map, Multiset.map_map]
  refine congrArg (Multiset.map Prod.fst) (Multiset.filter_congr fun x member => ?_)
  exact aged.newer x member first earlier

end Ages

/-- In every run of data operations on a table of version 2 or 3 that begins without snapshots, with
UUIDs and snapshot ids that are drawn fresh: a scan from an ancestor of a snapshot selects the live
files that were added after the ancestor, each once. -/
theorem incrementsExact {initial : TableMetadata} {store : Store V} {events : List (TableEvent V)}
    (versioned : initial.formatVersion ≠ .v1) (least : 0 ≤ initial.lastSequenceNumber)
    (empty : initial.snapshots = ∅)
    (names : FreshNames initial.location store (namesDrawn events))
    (data : ∀ entry ∈ (runTable initial store events).accepted, DataOnly (transactionOf entry))
    (fresh : ∀ entry ∈ (runTable initial store events).accepted, FreshIds entry)
    (sized : ∀ entry ∈ (runTable initial store events).accepted,
      ∀ operation ∈ (transactionOf entry).flatten, operation.Sized) :
    IncrementsExact (runTable initial store events) := by
  intro version member id snapshot found
  have all : AllSucceed (runTable initial store events).accepted version
      (runTable initial store events).world := fun other one here =>
    (allTraced versioned least empty names data fresh version member other one here).succeeds sized
  exact all.increment found

/-- An append, two sequence groups, an overwrite and an append. -/
theorem incrementsExact_run :
    IncrementsExact (runTable (longTable .v2) .empty
      [.prepare 0 (appendOne none 1 "a"), .send 0 1,
        .prepare 0 (appendGroupsOf [[longFile "b" 1], [longFile "c" 1]] 2 "b"), .send 0 2,
        .prepare 0 (.single (.overwrite none [longFile "d" 1] (HashMap.fromIter
          [(newManifestLocation "s3://warehouse/table" "b" 0, ["a"])]) none) 3 "d"), .send 0 3,
        .prepare 0 (appendOne none 4 "e"), .send 0 4]) :=
  incrementsExact (by decide) (by decide) rfl
    ⟨by decide +kernel, fun _ _ _ _ => ⟨fun _ => rfl, fun _ => rfl⟩⟩ (by decide +kernel)
    (by decide +kernel) (by decide +kernel)

/-! ### Version 1 -/

omit [PartitionValue V] in
theorem Attributed.card {store : Store V}
    (attributed : Attributed accepted metadata store snapshot origin) :
    origin.card = (store.filesOf metadata snapshot).card := by
  cases attributed with
  | first pointer added live => rw [Multiset.card_map, live]
  | next pointer found earlier stays added live =>
    rw [← live, Multiset.card_add, Multiset.card_add, Multiset.card_map, Multiset.card_map]

omit [PartitionValue V] in
/-- A snapshot with more files than its parent has added one. -/
theorem Attributed.exists_added {store : Store V} {parent : Snapshot} {id : Int}
    (attributed : Attributed accepted metadata store snapshot origin)
    (pointer : snapshot.parentSnapshotId = some id)
    (found : metadata.snapshots.lookup id = some parent)
    (fewer : (store.filesOf metadata parent).card < (store.filesOf metadata snapshot).card) :
    ∃ file, (file, snapshot) ∈ origin := by
  cases attributed with
  | first none added live =>
    rw [none] at pointer
    cases pointer
  | @next other head _ below kept came same here earlier stays added live =>
    rw [pointer] at same
    obtain rfl := Option.some.inj same
    obtain rfl := Option.some.inj (found.symm.trans here)
    have few := Multiset.card_le_card stays
    rw [earlier.card] at few
    rw [← live, Multiset.card_add, Multiset.card_map] at fewer
    obtain ⟨file, member⟩ := Multiset.card_pos_iff_exists_mem.mp (show 0 < came.card by omega)
    exact ⟨file, Multiset.mem_add.mpr (.inr (Multiset.mem_map_of_mem _ member))⟩

/-- Two appends to a table of version 1. -/
def v1Appends : TableState LongValue :=
  runTable (longTable .v1) .empty
    [.prepare 0 (appendOne none 1 "a"), .send 0 1, .prepare 0 (appendOne none 2 "b"), .send 0 2]

/-- In version 1 the scan from the first of two appends to the second does not select the file of
the second. -/
theorem v1_increment_lost : ¬ IncrementsExact v1Appends := by
  classical
  intro holds
  generalize state : v1Appends = after at holds
  have pointers : (after.current.snapshots.lookup 1).map (·.parentSnapshotId) = some none ∧
      (after.current.snapshots.lookup 2).map (·.parentSnapshotId) = some (some 1) := by
    subst state
    decide +kernel
  have sizes : (after.current.snapshots.lookup 1).map (fun snapshot =>
        (after.world.filesOf after.current snapshot).card) = some 1 ∧
      (after.current.snapshots.lookup 2).map (fun snapshot =>
        (after.world.filesOf after.current snapshot).card) = some 2 := by
    subst state
    decide +kernel
  have empty : (scanEntries after.current after.world (some 1) (some 2)).toOption.map
      (·.length) = some 0 := by
    subst state
    decide +kernel
  obtain ⟨first, one, root⟩ := Option.map_eq_some_iff.mp pointers.1
  obtain ⟨second, two, child⟩ := Option.map_eq_some_iff.mp pointers.2
  rw [one, two] at sizes
  obtain ⟨selected, scanned, none⟩ := Option.map_eq_some_iff.mp empty
  obtain rfl := List.length_eq_zero_iff.mp none
  obtain ⟨origin, attributed, exact⟩ :=
    (holds after.current (latest_mem_versions _ _) 2 second two).exact
  have before : Ancestor after.current first second := .parent child one .self
  have apart : first ≠ second := by
    rintro rfl
    rw [root] at child
    cases child
  have fewer : (after.world.filesOf after.current first).card <
      (after.world.filesOf after.current second).card := by
    have less := Option.some.inj sizes.1
    have more := Option.some.inj sizes.2
    dsimp only at less more
    omega
  obtain ⟨file, member⟩ := attributed.exists_added child one fewer
  have lost : addedAfter after.current first origin = 0 :=
    (exact 1 first one before [] (toOption_eq_some.mp scanned)).symm
  refine Multiset.notMem_zero file (lost ▸ ?_)
  exact Multiset.mem_map.mpr ⟨(file, second), Multiset.mem_filter.mpr ⟨member, before, apart⟩, rfl⟩

end IcebergRust

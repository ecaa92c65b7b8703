import IcebergRust.Catalog.Heads
import IcebergRust.Catalog.References
import IcebergRust.Table.Scan
import Mathlib.Data.List.Induction

/-!
# Snapshot lineage

Whether the parent pointers of a branch lead back over all its snapshots.

* `Follows` is a list of snapshots each of which has its predecessor as parent, the first
  one a given head.
* `Replace` gives its snapshot no parent.  In runs where no accepted commit replaces on a
  branch that has a head, every commit follows the head it found, and walking parents from
  the head of a branch enumerates all snapshots committed to it (`lineage_of_keepsParents`).
-/

namespace IcebergRust

open Fallible TableTransaction Optimistic

variable {V : Type}

/-- Each snapshot has the one before it as parent, and the first one `head`. -/
def Follows : Option Int → List Snapshot → Prop
  | _, [] => True
  | head, snapshot :: snapshots =>
    snapshot.parentSnapshotId = head ∧ Follows (some snapshot.snapshotId) snapshots

/-- The head of a branch after snapshots on top of `head`. -/
def headAfter (head : Option Int) (snapshots : List Snapshot) : Option Int :=
  (snapshots.getLast?.map (·.snapshotId)).or head

theorem headAfter_append (head : Option Int) (first last : List Snapshot) :
    headAfter head (first ++ last) = headAfter (headAfter head first) last := by
  simp only [headAfter, List.getLast?_append]
  cases last.getLast? <;> rfl

theorem follows_append {head : Option Int} {first last : List Snapshot} :
    Follows head (first ++ last) ↔ Follows head first ∧ Follows (headAfter head first) last := by
  induction first generalizing head with
  | nil => simp [Follows, headAfter]
  | cons snapshot first ih =>
    rw [List.cons_append, Follows, Follows, ih, and_assoc]
    have same : headAfter (some snapshot.snapshotId) first = headAfter head (snapshot :: first) := by
      simp only [headAfter, List.getLast?_cons]
      cases first.getLast? <;> rfl
    rw [same]

/-- The walk over parents from the head of a branch, down to where the branch began. -/
theorem walkParents_follows {metadata : TableMetadata} {start : Option Int}
    {snapshots : List Snapshot} (follows : Follows start snapshots)
    (stored : ∀ snapshot ∈ snapshots,
      metadata.snapshots.lookup snapshot.snapshotId = some snapshot)
    (apart : ∀ snapshot ∈ snapshots, start ≠ some snapshot.snapshotId) {id : Int}
    (head : headAfter start snapshots = some id) {fuel : Nat} (enough : snapshots.length < fuel) :
    walkParents metadata start fuel id =
      some (.ok (snapshots.map (·.snapshotId)).reverse) := by
  induction snapshots using List.reverseRecOn generalizing id fuel with
  | nil =>
    obtain ⟨fuel, rfl⟩ := Nat.exists_eq_succ_of_ne_zero (Nat.ne_of_gt enough)
    have same : start = some id := by simpa [headAfter] using head
    simp [walkParents, same]
  | append_singleton snapshots last ih =>
    obtain ⟨fuel, rfl⟩ := Nat.exists_eq_succ_of_ne_zero (Nat.ne_of_gt (Nat.zero_lt_of_lt enough))
    obtain ⟨before, parent, -⟩ := follows_append.mp follows
    have here : last.snapshotId = id := by
      rw [headAfter_append] at head
      simpa [headAfter] using head
    subst here
    have found := stored last (by simp)
    have below : snapshots.length < fuel := by simpa using enough
    rw [walkParents, if_neg (apart last (by simp)), found]
    simp only
    cases above : last.parentSnapshotId with
    | some parentId =>
      simp only
      rw [ih before (fun s member => stored s (List.mem_append_left _ member))
        (fun s member => apart s (List.mem_append_left _ member))
        (parent.symm.trans above) below]
      simp [Except.map]
    | none =>
      have rootless : headAfter start snapshots = none := parent.symm.trans above
      have empty : snapshots = [] ∧ start = none := by
        simpa [headAfter, Option.or_eq_none_iff] using rootless
      simp [empty.1, empty.2]

/-! ### One commit -/

/-- What a commit has to meet in the metadata it is applied to: where it contains a `Replace`, its
branch has no head, and nothing is appended in the same transaction. -/
def KeepsParents (entry : AcceptedCommit V) : Prop :=
  ∀ operation ∈ (transactionOf entry).flatten, operation.index = 4 →
    entry.current.refTarget (branchOf entry) = none ∧
      ∀ earlier ∈ (transactionOf entry).flatten, earlier.index < 4 →
        writesFiles earlier = false

section OneCommit

variable {entry : AcceptedCommit V} {performed : List (Performed V)}

/-- The parent of an operation that is no `Replace` is the head it has read. -/
theorem parentOn_of_ne {operation : Operation V} (other : operation.index ≠ 4)
    (old : Option Snapshot) : operation.parentOn old = old.map (·.snapshotId) := by
  cases operation with
  | replace => exact absurd rfl other
  | _ => rfl

/-- The head of the branch an operation reads, after the snapshots of the operations before it. -/
theorem read_head {branch : Option String} {entropy : Nat → Entropy} {base read : TableMetadata}
    {before : List (Performed V)} {first old : Option Snapshot}
    (sends : ∀ one ∈ before, SendsSnapshot one.read (entropy one.operation.index) branch
      one.operation.parentOn (one.operation.index < 4 → writesFiles one.operation = true)
      one.requirement one.updates)
    (effect : Effect base read (updatesOf before))
    (distinct : ((addedBy (updatesOf before)).map (·.snapshotId)).Nodup)
    (begun : base.currentSnapshot branch = .ok first) (now : read.currentSnapshot branch = .ok old) :
    old.map (·.snapshotId) =
      headAfter (first.map (·.snapshotId)) (addedBy (updatesOf before)) := by
  have only : OnlySnapshots (updatesOf before) ∧
      (addedBy (updatesOf before) = [] → updatesOf before = []) := by
    clear effect distinct
    induction before with
    | nil => exact ⟨by simp [OnlySnapshots], fun _ => rfl⟩
    | cons one before ih =>
      obtain ⟨rest, quiet⟩ := ih fun other member => sends other (List.mem_cons_of_mem _ member)
      have whole : updatesOf (one :: before) = one.updates ++ updatesOf before := rfl
      rw [whole]
      rcases sends one List.mem_cons_self with ⟨-, silent⟩ | ⟨_, snapshot, -, -, -, -, same⟩
      · rw [silent, List.nil_append]
        exact ⟨rest, quiet⟩
      · rw [(Prod.mk.inj same).2]
        refine ⟨?_, fun none => by simp [addedBy] at none⟩
        intro update member
        rcases List.mem_append.mp member with here | later
        · rcases List.mem_pair.mp here with rfl | rfl
          · exact .inl ⟨snapshot, rfl⟩
          · exact .inr ⟨_, _, rfl⟩
        · exact rest update later
  cases added : (addedBy (updatesOf before)).getLast? with
  | none =>
    have empty := List.getLast?_eq_none_iff.mp added
    rw [only.2 empty] at effect
    rw [effect.currentSnapshot branch, begun] at now
    rw [empty, ← Except.ok.inj now]
    rfl
  | some last =>
    have named := refs_of_sends sends base.refs (branchName branch)
    rw [← effect.refs, if_pos rfl, added, Option.map_some, Option.some_or] at named
    have member := List.mem_of_getLast? added
    have stored := @lookup_insertAll_of_mem _ base.snapshots _ distinct member
    rw [← snapshots_of_onlySnapshots only.1, ← effect.snapshots] at stored
    have points : read.refSnapshotId branch = some last.snapshotId := by
      cases branch with
      | none => simp [TableMetadata.refSnapshotId, show read.refs.lookup "main" = _ from named]
      | some name => simp [TableMetadata.refSnapshotId, show read.refs.lookup name = _ from named]
    rw [TableMetadata.currentSnapshot, points] at now
    rw [← Except.ok.inj now, stored, headAfter, added]
    rfl

/-- The snapshots of a commit follow the head its branch has in the metadata it is applied to. -/
theorem AcceptedSpec.follows (spec : AcceptedSpec entry performed)
    (data : DataOnly (transactionOf entry)) (fresh : FreshIds entry) (keeps : KeepsParents entry) :
    Follows (entry.current.refTarget (branchOf entry)) (snapshotsOf entry) := by
  obtain ⟨first, begun, target⟩ := spec.builtOn data
  have same : snapshotsOf entry = addedBy (updatesOf performed) := by
    rw [snapshotsOf, updatesSent, spec.prepared.updates]
  have distinct := fresh.1
  rw [same] at distinct ⊢
  have flat : ∀ one ∈ performed, one.operation ∈ (transactionOf entry).flatten := by
    intro one member
    rw [← spec.prepared.operations]
    exact List.mem_map_of_mem member
  suffices prefixes : ∀ before after, performed = before ++ after →
      Follows (entry.current.refTarget (branchOf entry)) (addedBy (updatesOf before)) by
    exact prefixes performed [] (List.append_nil _).symm
  intro before
  induction before using List.reverseRecOn with
  | nil => exact fun _ _ => trivial
  | append_singleton before one ih =>
    intro after whole
    rw [List.append_assoc, List.singleton_append] at whole
    have member : one ∈ performed := by rw [whole]; simp
    have within : ∀ other ∈ before, other ∈ performed := fun other inside => by
      rw [whole]
      exact List.mem_append_left _ inside
    have earlier := ih (one :: after) whole
    rw [updatesOf_snoc, addedBy, List.filterMap_append]
    refine follows_append.mpr ⟨earlier, ?_⟩
    rcases spec.sends data member with ⟨-, silent⟩ | ⟨old, snapshot, read, -, parent, -, sent⟩
    · rw [silent]
      trivial
    rw [(Prod.mk.inj sent).2]
    refine ⟨parent.trans ?_, trivial⟩
    have performs := spec.prepared.performs
    rw [whole] at performs
    have effect := performs.split.2.1
    have nodup : ((addedBy (updatesOf before)).map (·.snapshotId)).Nodup := by
      rw [whole, updatesOf, List.flatMap_append, addedBy, List.filterMap_append, List.map_append]
        at distinct
      exact (List.nodup_append.mp distinct).1
    have head := read_head (fun other inside => spec.sends data (within other inside)) effect nodup
      begun read
    by_cases replaces : one.operation.index = 4
    · obtain ⟨none, silent⟩ := keeps one.operation (flat one member) replaces
      have quiet : addedBy (updatesOf before) = [] := by
        refine List.filterMap_eq_nil_iff.mpr fun update inside => ?_
        obtain ⟨other, inside, updates⟩ := List.mem_flatMap.mp inside
        have sorted := (transactionOf entry).flatten_sorted
        rw [← spec.prepared.operations, whole, List.map_append, List.map_append,
          List.pairwise_append] at sorted
        have early : other.operation.index < 4 := by
          rw [← replaces]
          exact sorted.2.2 _ (List.mem_map_of_mem (List.mem_map_of_mem inside)) _ (by simp)
        rcases spec.sends data (within other inside) with
          ⟨-, nothing⟩ | ⟨-, -, -, -, -, wrote, -⟩
        · rw [nothing] at updates
          exact absurd updates List.not_mem_nil
        · rw [silent _ (flat other (within other inside)) early] at wrote
          exact absurd (wrote early) Bool.false_ne_true
      show one.operation.parentOn old = headAfter _ (addedBy (updatesOf before))
      rw [quiet, none]
      obtain ⟨operation, _, _, _⟩ := one
      cases operation with
      | replace => rfl
      | _ => simp [Operation.index] at replaces
    · rw [target]
      exact (parentOn_of_ne replaces old).trans head

end OneCommit

/-! ### Runs -/

/-- The snapshots of accepted commits on a branch, oldest first. -/
def addedOn (accepted : List (AcceptedCommit V)) (name : String) : List Snapshot :=
  (accepted.reverse.filter fun entry => branchOf entry = name).flatMap snapshotsOf

theorem addedOn_cons (entry : AcceptedCommit V) (past : List (AcceptedCommit V)) (name : String) :
    addedOn (entry :: past) name =
      addedOn past name ++ if branchOf entry = name then snapshotsOf entry else [] := by
  rw [addedOn, List.reverse_cons, List.filter_append, List.flatMap_append]
  by_cases here : branchOf entry = name <;> simp [addedOn, here]

/-- Every commit has followed the head of its branch, and walking parents from a head enumerates
all snapshots committed to its branch, newest first, down to where the branch began. -/
structure Lineage (initial : TableMetadata) (state : TableState V) : Prop where
  parents : ∀ entry ∈ state.accepted,
    Follows (entry.current.refTarget (branchOf entry)) (snapshotsOf entry)
  walk : ∀ name id, state.current.refTarget name = some id →
    ∀ fuel, (snapshotsOn state name).length < fuel →
      walkParents state.current (initial.refTarget name) fuel id =
        some (.ok ((snapshotsOn state name).map (·.snapshotId)).reverse)

section Runs

variable [PartitionValue V] {initial : TableMetadata} {accepted : List (AcceptedCommit V)}

/-- What is known of a branch after a history. -/
structure BranchOf (initial : TableMetadata) (accepted : List (AcceptedCommit V)) (name : String) :
    Prop where
  head : (latest initial accepted).refTarget name =
    headAfter (initial.refTarget name) (addedOn accepted name)
  follows : Follows (initial.refTarget name) (addedOn accepted name)
  stored : ∀ snapshot ∈ addedOn accepted name,
    (latest initial accepted).snapshots.lookup snapshot.snapshotId = some snapshot
  apart : ∀ snapshot ∈ addedOn accepted name, initial.refTarget name ≠ some snapshot.snapshotId
  present : addedOn accepted name ≠ [] → ∀ id, initial.refTarget name = some id →
    id ∈ (latest initial accepted).snapshots

omit [PartitionValue V] in
/-- What one more commit does to a branch. -/
theorem BranchOf.accept {past : List (AcceptedCommit V)} {name : String}
    {entry : AcceptedCommit V} {performed : List (Performed V)}
    (before : BranchOf initial past name) (current : entry.current = latest initial past)
    (spec : AcceptedSpec entry performed) (data : DataOnly (transactionOf entry))
    (fresh : FreshIds entry) (keeps : KeepsParents entry)
    (begun : branchOf entry = name → addedOn past name = [] → ∀ id,
      initial.refTarget name = some id → id ∈ (latest initial past).snapshots) :
    BranchOf initial (entry :: past) name := by
  obtain ⟨head, follows, stored, apart, present⟩ := before
  have kept := spec.keepsSnapshots data fresh
  have target := spec.refTarget data name
  have own := spec.follows data fresh keeps
  have drawn := fresh.2
  rw [current] at kept target own drawn
  have stays : ∀ id, id ∈ (latest initial past).snapshots → id ∈ entry.next.snapshots := by
    intro id member
    obtain ⟨snapshot, found⟩ := Option.isSome_iff_exists.mp (AList.lookup_isSome.mpr member)
    exact AList.lookup_isSome.mp (by rw [kept id snapshot found]; rfl)
  by_cases here : branchOf entry = name
  · have older : ∀ id, initial.refTarget name = some id → id ∈ (latest initial past).snapshots := by
      by_cases none : addedOn past name = []
      · exact begun here none
      · exact present none
    rw [here, head] at own
    rw [if_pos here.symm] at target
    have added : addedOn (entry :: past) name = addedOn past name ++ snapshotsOf entry := by
      rw [addedOn_cons, if_pos here]
    constructor
    · rw [latest_cons, target, head, added, headAfter_append]
      rfl
    · rw [added]
      exact follows_append.mpr ⟨follows, own⟩
    · intro snapshot member
      rw [added] at member
      rcases List.mem_append.mp member with old | new
      · exact kept _ _ (stored snapshot old)
      · rw [latest_cons, spec.snapshots data]
        exact lookup_insertAll_of_mem fresh.1 new
    · intro snapshot member
      rw [added] at member
      rcases List.mem_append.mp member with old | new
      · exact apart snapshot old
      · exact fun begins => drawn snapshot new (older _ begins)
    · exact fun _ id begins => stays id (older id begins)
  · rw [if_neg fun same => here same.symm] at target
    have added : addedOn (entry :: past) name = addedOn past name := by
      rw [addedOn_cons, if_neg here, List.append_nil]
    rw [← added] at head follows stored apart present
    exact ⟨target.trans head, follows, fun snapshot member => kept _ _ (stored snapshot member),
      apart, fun some id begins => stays id (present some id begins)⟩

theorem branchOf_history (history : TableHistory V initial accepted)
    (data : ∀ entry ∈ accepted, DataOnly (transactionOf entry))
    (fresh : ∀ entry ∈ accepted, FreshIds entry)
    (keeps : ∀ entry ∈ accepted, KeepsParents entry) (keyed : KeyedById initial) (name : String) :
    BranchOf initial accepted name := by
  induction history with
  | start =>
    exact ⟨rfl, trivial, by simp [addedOn], by simp [addedOn], fun some => absurd rfl some⟩
  | @accept past proposal environment next before known prepared applied ih =>
    obtain ⟨performed, spec⟩ := TableHistory.spec_of_mem
      (.accept before known prepared applied) List.mem_cons_self
    have dataPast := fun entry member => data entry (List.mem_cons_of_mem _ member)
    have freshPast := fun entry member => fresh entry (List.mem_cons_of_mem _ member)
    refine (ih dataPast freshPast fun entry member => keeps entry
      (List.mem_cons_of_mem _ member)).accept rfl spec (data _ List.mem_cons_self)
      (fresh _ List.mem_cons_self) (keeps _ List.mem_cons_self) fun here none id begins => ?_
    -- The head the branch begins at is the one the commit was built on.
    have branch := ih dataPast freshPast fun entry member =>
      keeps entry (List.mem_cons_of_mem _ member)
    obtain ⟨old, read, built⟩ := spec.builtOn (data _ List.mem_cons_self)
    have head : (latest initial past).refTarget name = some id := by
      rw [branch.head, none, ← begins]
      rfl
    obtain ⟨snapshot, rfl, rfl⟩ := Option.map_eq_some_iff.mp
      ((here ▸ built).symm.trans head)
    have found := head_stored before dataPast freshPast keyed known read
    exact AList.lookup_isSome.mp (by rw [found]; rfl)

end Runs

/-- In every run of data operations whose accepted commits replace only on branches without a head,
each commit follows the head of its branch, and walking parents enumerates the branch. -/
theorem lineage_of_keepsParents [PartitionValue V] (initial : TableMetadata) (store : Store V)
    (events : List (TableEvent V)) (keyed : KeyedById initial)
    (data : ∀ entry ∈ (runTable initial store events).accepted, DataOnly (transactionOf entry))
    (fresh : ∀ entry ∈ (runTable initial store events).accepted, FreshIds entry)
    (keeps : ∀ entry ∈ (runTable initial store events).accepted, KeepsParents entry) :
    Lineage initial (runTable initial store events) := by
  have history := runTable_history initial store events
  have begun : (runTable initial store events).initial = initial := run_initial _ events
  constructor
  · intro entry member
    obtain ⟨performed, spec⟩ := history.spec_of_mem member
    exact spec.follows (data entry member) (fresh entry member) (keeps entry member)
  · intro name id head fuel enough
    have branch := branchOf_history history data fresh keeps keyed name
    rw [State.current, begun] at head ⊢
    exact walkParents_follows branch.follows branch.stored branch.apart
      (branch.head.symm.trans head) enough

/-! ### A replacement -/

/-- The request of a client that replaces the files of the main branch. -/
def replaceOne (snapshotId : Int) (uuid : String) : CommitRequest LongValue :=
  .single (.replace none [longFile uuid 1] none) snapshotId uuid

instance (entry : AcceptedCommit V) : Decidable (KeepsParents entry) :=
  inferInstanceAs (Decidable (∀ operation ∈ _, _ → _ ∧ ∀ earlier ∈ _, _ → _))

/-- A replacement in an empty table, and appends to two branches. -/
theorem lineage_of_keepsParents_appends :
    Lineage (longTable .v2) (runTable (longTable .v2) .empty
      [.prepare 0 (replaceOne 1 "a"), .send 0 1, .prepare 0 (appendOne none 2 "b"), .send 0 2,
        .prepare 0 (appendOne (some "dev") 3 "c"), .send 0 3]) :=
  lineage_of_keepsParents (longTable .v2) .empty
    [.prepare 0 (replaceOne 1 "a"), .send 0 1, .prepare 0 (appendOne none 2 "b"), .send 0 2,
      .prepare 0 (appendOne (some "dev") 3 "c"), .send 0 3]
    (longTable_keyed .v2) (by decide +kernel) (by decide +kernel) (by decide +kernel)

/-- The snapshot of a replacement on a branch with a head has no parent. -/
theorem replaced_head_forgotten :
    ¬ Lineage (longTable .v2) (runTable (longTable .v2) .empty
      [.prepare 0 (appendOne none 1 "a"), .send 0 1, .prepare 0 (replaceOne 2 "b"), .send 0 2]) := by
  intro lineage
  have walk := lineage.walk "main" 2 (by decide +kernel) 3 (by decide +kernel)
  exact absurd walk (by decide +kernel)

end IcebergRust

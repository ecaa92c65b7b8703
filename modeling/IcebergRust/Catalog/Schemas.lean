import IcebergRust.Catalog.History
import IcebergRust.Spec.LongValue

/-!
# Schemas and partition specs under concurrent commits

Whether a schema id stays bound to one schema over the committed metadata of a table.

* Partition specs never change: no operation of a transaction adds one.
* A schema is added under the id the client has chosen, without any requirement.  The id
  stays bound exactly if no accepted commit adds another schema under it
  (`neverRebound_iff`); `concurrent_schemas_rebound` is a run of two clients where one
  replaces the schema of the other.
-/

namespace IcebergRust

open TableTransaction Optimistic

/-- Everything bound in the earlier metadata is bound to the same in the later one. -/
def StaysBound (earlier later : TableMetadata) : Prop :=
  (∀ id schema, earlier.schemas.lookup id = some schema →
    later.schemas.lookup id = some schema) ∧
  (∀ id spec, earlier.partitionSpecs.lookup id = some spec →
    later.partitionSpecs.lookup id = some spec)

theorem StaysBound.refl (metadata : TableMetadata) : StaysBound metadata metadata :=
  ⟨fun _ _ found => found, fun _ _ found => found⟩

theorem StaysBound.trans (a b c : TableMetadata) (one : StaysBound a b) (two : StaysBound b c) :
    StaysBound a c :=
  ⟨fun id schema found => two.1 id schema (one.1 id schema found),
    fun id spec found => two.2 id spec (one.2 id spec found)⟩

/-- What an update adds is what metadata has bound under its id. -/
def Binds (metadata : TableMetadata) : TableUpdate → Prop
  | .addSchema schema _ => metadata.schemas.lookup schema.schemaId = some schema
  | .addSpec spec => metadata.partitionSpecs.lookup spec.specId = some spec
  | _ => True

theorem Binds.mono {earlier later : TableMetadata} {update : TableUpdate}
    (binds : Binds earlier update) (stays : StaysBound earlier later) : Binds later update := by
  cases update with
  | addSchema schema lastColumnId => exact stays.1 _ _ binds
  | addSpec spec => exact stays.2 _ _ binds
  | _ => trivial

variable {V : Type}

/-- Of any two committed versions the later one binds what the earlier one does, and what an
accepted commit has added is bound from then on. -/
def NeverRebound (state : TableState V) : Prop :=
  state.versions.Pairwise (fun later earlier => StaysBound earlier later) ∧
    ∀ later entry past, state.accepted = later ++ entry :: past →
      ∀ update ∈ updatesSent entry, ∀ version ∈ later.map (·.next) ++ [entry.next],
        Binds version update

/-- The commit adds a schema only under an id that is free, or bound to that very schema, in the
metadata the commit is applied to. -/
def RebindsNothing (entry : AcceptedCommit V) : Prop :=
  ∀ schema, (transactionOf entry).operations 0 = some (.addSchema schema) →
    entry.current.schemas.lookup schema.schemaId = none ∨
      entry.current.schemas.lookup schema.schemaId = some schema

/-! ### The effect of a transaction on schemas and specs -/

/-- The schemas after an operation. -/
def Operation.schemas (schemas : HashMap Int Schema) : Operation V → HashMap Int Schema
  | .addSchema schema => schemas.insert schema.schemaId schema
  | _ => schemas

variable {metadata : TableMetadata} {operation : Operation V}
  {requirement : Option TableRequirement} {updates : List TableUpdate}

theorem Outcome.schemas {entropy : Entropy}
    (outcome : Outcome metadata entropy operation requirement updates)
    (schemas : HashMap Int Schema) :
    updates.foldl TableUpdate.schemas schemas = operation.schemas schemas := by
  cases outcome with
  | nothing writes => cases operation <;> first | rfl | simp [Operation.branch] at writes
  | snapshot writes => cases operation <;> first | rfl | simp [Operation.branch] at writes
  | _ => rfl

theorem Outcome.binds {after : TableMetadata} {entropy : Entropy}
    (outcome : Outcome metadata entropy operation requirement updates) {update : TableUpdate}
    (member : update ∈ updates) (bound : ∀ schema, operation = .addSchema schema →
      after.schemas.lookup schema.schemaId = some schema) : Binds after update := by
  cases outcome with
  | nothing => simp at member
  | snapshot => rcases List.mem_pair.mp member with rfl | rfl <;> trivial
  | schema schema =>
    obtain rfl := List.mem_singleton.mp member
    exact bound schema rfl
  | sortOrder => rcases List.mem_pair.mp member with rfl | rfl <;> trivial
  | retained => simp at member
  | _ =>
    obtain rfl := List.mem_singleton.mp member
    trivial

theorem Outcome.partitionSpecs {entropy : Entropy}
    (outcome : Outcome metadata entropy operation requirement updates)
    (specs : HashMap Int PartitionSpec) :
    updates.foldl TableUpdate.partitionSpecs specs = specs := by
  cases outcome <;> rfl

theorem Performs.schemas {base : TableMetadata} {entropy : Nat → Entropy}
    {performed : List (Performed V)} (performs : Performs base entropy performed)
    (schemas : HashMap Int Schema) :
    (updatesOf performed).foldl TableUpdate.schemas schemas =
      (performed.map (·.operation)).foldl Operation.schemas schemas := by
  induction performs with
  | nil => rfl
  | snoc before staged outcome ih =>
    rw [updatesOf_snoc, List.foldl_append, ih, outcome.schemas, List.map_append, List.foldl_append]
    rfl

theorem Performs.partitionSpecs {base : TableMetadata} {entropy : Nat → Entropy}
    {performed : List (Performed V)} (performs : Performs base entropy performed)
    (specs : HashMap Int PartitionSpec) :
    (updatesOf performed).foldl TableUpdate.partitionSpecs specs = specs := by
  induction performs with
  | nil => rfl
  | snoc before staged outcome ih =>
    rw [updatesOf_snoc, List.foldl_append, ih, outcome.partitionSpecs]

namespace TableTransaction

theorem schemas_of_slots (transaction : TableTransaction V) (slots : List Nat)
    (later : ∀ slot ∈ slots, slot ≠ 0) (schemas : HashMap Int Schema) :
    (slots.filterMap transaction.operations).foldl Operation.schemas schemas = schemas := by
  induction slots generalizing schemas with
  | nil => rfl
  | cons slot slots ih =>
    have rest := ih fun s member => later s (List.mem_cons_of_mem _ member)
    cases found : transaction.operations slot with
    | none => rw [List.filterMap_cons_none found, rest]
    | some operation =>
      have index := transaction.slot_index slot operation found
      have nonzero := later slot List.mem_cons_self
      rw [List.filterMap_cons_some found, List.foldl_cons, rest]
      cases operation with
      | addSchema schema => exact absurd index.symm nonzero
      | _ => rfl

/-- Only the first slot of a transaction changes schemas. -/
theorem schemas_of_flatten (transaction : TableTransaction V) (schemas : HashMap Int Schema) :
    transaction.flatten.foldl Operation.schemas schemas =
      (transaction.operations 0).toList.foldl Operation.schemas schemas := by
  have slots : List.range numOperations = 0 :: (List.range 10).map Nat.succ := rfl
  rw [flatten, slots]
  have rest := transaction.schemas_of_slots ((List.range 10).map Nat.succ) (by simp)
  cases found : transaction.operations 0 with
  | none => rw [List.filterMap_cons_none found, rest]; rfl
  | some operation => rw [List.filterMap_cons_some found, List.foldl_cons, rest]; rfl

/-- A transaction that adds a schema has it in the first slot. -/
theorem addSchema_slot {transaction : TableTransaction V} {schema : Schema}
    (member : .addSchema schema ∈ transaction.flatten) :
    transaction.operations 0 = some (.addSchema schema) := by
  obtain ⟨slot, -, found⟩ := List.mem_filterMap.mp member
  have index := transaction.slot_index slot _ found
  rwa [← index] at found

end TableTransaction

/-! ### Accepted commits -/

section Accepted

variable {entry : AcceptedCommit V} {performed : List (Performed V)}

theorem AcceptedSpec.schemas (spec : AcceptedSpec entry performed) :
    entry.next.schemas = ((transactionOf entry).operations 0).toList.foldl Operation.schemas
      entry.current.schemas := by
  rw [spec.effect.schemas, spec.prepared.performs.schemas, spec.prepared.operations,
    schemas_of_flatten]

theorem AcceptedSpec.partitionSpecs (spec : AcceptedSpec entry performed) :
    entry.next.partitionSpecs = entry.current.partitionSpecs := by
  rw [spec.effect.partitionSpecs, spec.prepared.performs.partitionSpecs]

theorem AcceptedSpec.bound (spec : AcceptedSpec entry performed) {schema : Schema}
    (adds : (transactionOf entry).operations 0 = some (.addSchema schema)) :
    entry.next.schemas = entry.current.schemas.insert schema.schemaId schema := by
  rw [spec.schemas, adds]
  rfl

/-- An accepted commit keeps all bindings exactly if it rebinds nothing. -/
theorem AcceptedSpec.staysBound_iff (spec : AcceptedSpec entry performed) :
    StaysBound entry.current entry.next ↔ RebindsNothing entry := by
  constructor
  · intro stays schema adds
    cases found : entry.current.schemas.lookup schema.schemaId with
    | none => exact .inl rfl
    | some old =>
      have kept := stays.1 _ _ found
      rw [spec.bound adds, AList.lookup_insert] at kept
      exact .inr kept.symm
  · intro rebinds
    refine ⟨fun id schema found => ?_, fun id partitionSpec found => by rwa [spec.partitionSpecs]⟩
    rw [spec.schemas]
    match slot : (transactionOf entry).operations 0 with
    | some (.addSchema added) =>
      show (entry.current.schemas.insert added.schemaId added).lookup id = some schema
      by_cases same : id = added.schemaId
      · rw [same] at found ⊢
        rcases rebinds added slot with free | bound
        · rw [free] at found
          cases found
        · rw [AList.lookup_insert, ← bound, found]
      · rwa [AList.lookup_insert_ne same]
    | none => exact found
    | some (.setDefaultSpec _) | some (.updateProperties _) | some (.setSnapshotRef _)
    | some (.replaceSortOrder _) | some (.append ..) | some (.appendSequenceGroups ..)
    | some (.replace ..) | some (.overwrite ..) | some (.truncate _) | some (.expireSnapshots ..) =>
      exact found

theorem AcceptedSpec.binds (spec : AcceptedSpec entry performed) {update : TableUpdate}
    (member : update ∈ updatesSent entry) : Binds entry.next update := by
  rw [updatesSent, spec.prepared.updates, updatesOf, List.mem_flatMap] at member
  obtain ⟨one, within, sent⟩ := member
  refine (spec.prepared.performs.outcome within).binds sent fun schema adds => ?_
  have flat : .addSchema schema ∈ (transactionOf entry).flatten := by
    rw [← spec.prepared.operations, ← adds]
    exact List.mem_map_of_mem within
  rw [spec.bound (addSchema_slot flat), AList.lookup_insert]

end Accepted

/-! ### Runs -/

variable [PartitionValue V]

/-- In a run, schema ids and partition-spec ids stay bound exactly if every accepted commit that
adds a schema adds it under an id that is free, or bound to that schema, when it is applied. -/
theorem neverRebound_iff (initial : TableMetadata) (store : Store V)
    (events : List (TableEvent V)) :
    NeverRebound (runTable initial store events) ↔
      ∀ entry ∈ (runTable initial store events).accepted, RebindsNothing entry := by
  have history := runTable_history initial store events
  have begun : (runTable initial store events).initial = initial := run_initial _ events
  have pairwise := history.pairwise_iff StaysBound StaysBound.refl StaysBound.trans
  have each : (∀ entry ∈ (runTable initial store events).accepted,
      StaysBound entry.current entry.next) ↔
      ∀ entry ∈ (runTable initial store events).accepted, RebindsNothing entry := by
    refine forall₂_congr fun entry member => ?_
    obtain ⟨performed, spec⟩ := history.spec_of_mem member
    exact spec.staysBound_iff
  rw [NeverRebound, State.versions, begun, pairwise, each, and_iff_left_iff_imp]
  intro rebinds later entry past split update sent version member
  obtain ⟨performed, spec⟩ := history.spec_of_mem (split ▸ List.mem_append_right later
    List.mem_cons_self : entry ∈ (runTable initial store events).accepted)
  have added := spec.binds sent
  rcases List.mem_append.mp member with newer | here
  · refine added.mono ?_
    have ordered := (pairwise.mpr (each.mpr rebinds))
    rw [split, versions, List.map_append, List.append_assoc, List.pairwise_append] at ordered
    exact ordered.2.2 version newer entry.next (by simp)
  · obtain rfl := List.mem_singleton.mp here
    exact added

/-! ### Two writers evolving the schema -/

/-- The columns of `longTable` and one more. -/
def withColumn (name : String) : Schema :=
  ⟨1, none, ⟨[⟨1, "x", true, .primitive .long, none, none, none⟩,
    ⟨2, name, false, .primitive .long, none, none, none⟩]⟩⟩

/-- The request of a client that adds a column. -/
def addColumn (name : String) : CommitRequest LongValue :=
  .single (.addSchema (withColumn name)) 0 ""

/-- Two clients read the same metadata, each adds a column under schema id 1, and both commits are
accepted: the schema of the first is replaced. -/
theorem concurrent_schemas_rebound :
    ¬ NeverRebound (runTable (longTable .v2) .empty
      [.prepare 0 (addColumn "a"), .prepare 0 (addColumn "b"), .send 0 1, .send 0 2]) := by
  intro never
  have stays := List.pairwise_iff_getElem.mp never.1 0 1 (by decide) (by decide) (by decide)
  have kept := stays.1 1 (withColumn "a") (by decide)
  exact absurd kept (by decide)

end IcebergRust

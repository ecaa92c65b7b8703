import IcebergRust.Catalog.References

/-!
# Cross-references of the metadata

Whether updates keep what the metadata names by id: the current schema, the default spec
and the default sort order among the registered ones, and the snapshots that references
and the current snapshot point at.

* `Registry` is one of the three maps whose chosen element is named by id; `choice` is the
  id a list of updates ends up naming, and `-1` the one added last before it.
* `applyTableUpdates` checks none of these ids.  `intact_iff` says exactly which lists of
  updates keep all of them.
-/

namespace IcebergRust

open Fallible

/-- A map of the metadata with an element that is chosen by id. -/
inductive Registry where
  | schemas
  | specs
  | sortOrders
deriving DecidableEq, Repr

namespace Registry

/-- The registered ids. -/
def ids (metadata : TableMetadata) : Registry → List Int
  | schemas => metadata.schemas.keys
  | specs => metadata.partitionSpecs.keys
  | sortOrders => metadata.sortOrders.keys

/-- The chosen id. -/
def chosen (metadata : TableMetadata) : Registry → Int
  | schemas => metadata.currentSchemaId
  | specs => metadata.defaultSpecId
  | sortOrders => metadata.defaultSortOrderId

/-- The id an update registers. -/
def registers : Registry → TableUpdate → Option Int
  | schemas, .addSchema schema _ => some schema.schemaId
  | specs, .addSpec spec => some spec.specId
  | sortOrders, .addSortOrder sortOrder => some sortOrder.orderId
  | _, _ => none

/-- The id an update chooses, as it is written. -/
def chooses : Registry → TableUpdate → Option Int
  | schemas, .setCurrentSchema id => some id
  | specs, .setDefaultSpec id => some id
  | sortOrders, .setDefaultSortOrder id => some id
  | _, _ => none

/-- The id that updates, newest first, have chosen. -/
def choice (registry : Registry) : List TableUpdate → Option Int
  | [] => none
  | update :: earlier =>
    match registry.chooses update with
    | some id => if id = -1 then earlier.findSome? registry.registers else some id
    | none => choice registry earlier

/-- The id added last while updates are applied. -/
def added (state : ApplyState) : Registry → Option Int
  | schemas => state.addedSchemaId
  | specs => state.addedSpecId
  | sortOrders => state.addedSortOrderId

end Registry

/-- Whether updates, newest first, have left a snapshot there. -/
def leftBy (id : Int) : TableUpdate → Option Bool
  | .addSnapshot snapshot => if snapshot.snapshotId = id then some true else none
  | .removeSnapshots ids => if id ∈ ids then some false else none
  | _ => none

/-- Every id the metadata names is there. -/
structure Intact (metadata : TableMetadata) : Prop where
  chosen : ∀ registry : Registry, registry.chosen metadata ∈ registry.ids metadata
  pointers : PointersIntact metadata

/-- Every id a list of updates ends up naming is registered before or by the updates, and what
every pointer ends up at was there or has been added, and not removed since. -/
structure KeepsNamed (metadata : TableMetadata) (updates : List TableUpdate) : Prop where
  chosen : ∀ (registry : Registry) (id : Int), registry.choice updates.reverse = some id →
    id ∈ registry.ids metadata ∨ some id ∈ updates.map registry.registers
  pointers : ∀ (pointer : Pointer) (id : Int),
    pointerAfter pointer (metadata.pointer pointer) updates = some id →
      (updates.reverse.findSome? (leftBy id)).getD (decide (id ∈ metadata.snapshots)) = true

/-! ### One update -/

/-- What is known of a registry after an update. -/
structure Registered (registry : Registry) (before : ApplyState) (update : TableUpdate)
    (after : ApplyState) : Prop where
  ids : ∀ id, id ∈ registry.ids after.metadata ↔
    id ∈ registry.ids before.metadata ∨ registry.registers update = some id
  added : registry.added after = (registry.registers update).or (registry.added before)
  chosen : match registry.chooses update with
    | none => registry.chosen after.metadata = registry.chosen before.metadata
    | some id => (if id = -1 then registry.added before else some id) =
        some (registry.chosen after.metadata)

theorem lastAdded_eq_ok {id named : Int} {added : Option Int} {missing : String}
    (run : lastAdded id added missing = .ok named) :
    (if id = -1 then added else some id) = some named := by
  simp only [lastAdded] at run
  split at run
  · rename_i last
    rw [if_pos last]
    cases added with
    | none => cases run
    | some addedId => cases run; rfl
  · rename_i given
    cases run
    rw [if_neg given]

theorem mem_keys_insert {β : Type} {map : HashMap Int β} {key id : Int} {value : β} :
    id ∈ (map.insert key value).keys ↔ id ∈ map.keys ∨ some key = some id := by
  rw [Option.some_inj, or_comm, eq_comm]
  exact AList.mem_insert map

variable {update : TableUpdate}

open Registry

theorem Applied.registered {before after : ApplyState} (applied : Applied before update after)
    (registry : Registry) : Registered registry before update after := by
  cases applied with
  | schema schema lastColumnId =>
    cases registry
    · exact ⟨fun _ => mem_keys_insert, rfl, rfl⟩
    all_goals exact ⟨by simp [ids, registers], rfl, rfl⟩
  | spec spec =>
    cases registry
    case specs => exact ⟨fun _ => mem_keys_insert, rfl, rfl⟩
    all_goals exact ⟨by simp [ids, registers], rfl, rfl⟩
  | sortOrder sortOrder =>
    cases registry
    case sortOrders => exact ⟨fun _ => mem_keys_insert, rfl, rfl⟩
    all_goals exact ⟨by simp [ids, registers], rfl, rfl⟩
  | currentSchema _ _ _ named =>
    cases registry
    · exact ⟨by simp [ids, registers], rfl, lastAdded_eq_ok named⟩
    all_goals exact ⟨by simp [ids, registers], rfl, rfl⟩
  | defaultSpec _ _ _ named =>
    cases registry
    case specs => exact ⟨by simp [ids, registers], rfl, lastAdded_eq_ok named⟩
    all_goals exact ⟨by simp [ids, registers], rfl, rfl⟩
  | defaultSortOrder _ _ _ named =>
    cases registry
    case sortOrders =>
      exact ⟨by simp [ids, registers], rfl, lastAdded_eq_ok named⟩
    all_goals exact ⟨by simp [ids, registers], rfl, rfl⟩
  | _ =>
    cases registry <;> exact ⟨by
      simp [ids, registers, setSnapshotRef, removeSnapshots], rfl, rfl⟩

theorem Applied.snapshots {before after : ApplyState} (applied : Applied before update after)
    (id : Int) :
    decide (id ∈ after.metadata.snapshots) =
      (leftBy id update).getD (decide (id ∈ before.metadata.snapshots)) := by
  cases applied with
  | snapshot snapshot nextRowId advances lineage =>
    by_cases same : snapshot.snapshotId = id
    · simp [leftBy, same]
    · simp [leftBy, same, AList.mem_insert, Ne.symm same]
  | removed ids =>
    by_cases gone : id ∈ ids
    · simp [leftBy, gone, removeSnapshots, mem_foldl_erase]
    · simp [leftBy, gone, removeSnapshots, mem_foldl_erase]
  | _ => rfl

/-! ### All updates -/

/-- What is known after a prefix of the updates. -/
structure After (metadata : TableMetadata) (done : List TableUpdate) (state : ApplyState) :
    Prop where
  ids : ∀ (registry : Registry) (id : Int), id ∈ registry.ids state.metadata ↔
    id ∈ registry.ids metadata ∨ some id ∈ done.map registry.registers
  added : ∀ registry : Registry, registry.added state = done.reverse.findSome? registry.registers
  chosen : ∀ registry : Registry, registry.chosen state.metadata =
    (registry.choice done.reverse).getD (registry.chosen metadata)
  snapshots : ∀ id, decide (id ∈ state.metadata.snapshots) =
    (done.reverse.findSome? (leftBy id)).getD (decide (id ∈ metadata.snapshots))

theorem After.start (metadata : TableMetadata) : After metadata [] ⟨metadata, none, none, none⟩ where
  ids := by simp
  added registry := by cases registry <;> rfl
  chosen registry := by cases registry <;> rfl
  snapshots id := rfl

theorem After.step {metadata : TableMetadata} {done : List TableUpdate} {state next : ApplyState}
    (here : After metadata done state) (applied : Applied state update next) :
    After metadata (done ++ [update]) next where
  ids registry id := by
    rw [(applied.registered registry).ids, here.ids, List.map_append, List.mem_append, or_assoc]
    simp [eq_comm]
  added registry := by
    rw [(applied.registered registry).added, here.added, List.reverse_append]
    cases found : registry.registers update <;> simp [found]
  chosen registry := by
    have step := (applied.registered registry).chosen
    rw [List.reverse_append]
    show _ = (registry.choice (update :: done.reverse)).getD _
    rw [choice]
    cases named : registry.chooses update with
    | none =>
      rw [named] at step
      exact step.trans (here.chosen registry)
    | some id =>
      rw [named, here.added] at step
      simp only at step ⊢
      rw [step, Option.getD_some]
  snapshots id := by
    rw [applied.snapshots, here.snapshots, List.reverse_append]
    cases found : leftBy id update <;> simp [found]

theorem applyTableUpdates_after {metadata after : TableMetadata} {updates : List TableUpdate}
    {now : Int} (run : applyTableUpdates metadata updates now = .ok after) :
    ∃ state, After metadata updates state ∧ after = { state.metadata with lastUpdatedMs := now } :=
  applyTableUpdates_prefix (After metadata)
    (fun _ _ _ _ here applied => here.step applied) run (.start metadata)

/-- Updates that are applied to metadata in which every named id is there keep that exactly if they
keep what they name. -/
theorem intact_iff (metadata after : TableMetadata) (updates : List TableUpdate) (now : Int)
    (intact : Intact metadata) (run : applyTableUpdates metadata updates now = .ok after) :
    Intact after ↔ KeepsNamed metadata updates := by
  obtain ⟨state, here, same⟩ := applyTableUpdates_after run
  have pointers := (applyTableUpdates_effect run).pointer
  have ids : ∀ registry : Registry, registry.ids after = registry.ids state.metadata := by
    rintro (_ | _ | _) <;> rw [same] <;> rfl
  have chosen : ∀ registry : Registry, registry.chosen after =
      (registry.choice updates.reverse).getD (registry.chosen metadata) := by
    intro registry
    rw [← here.chosen, same]
    cases registry <;> rfl
  have kept : ∀ id, id ∈ after.snapshots ↔
      (updates.reverse.findSome? (leftBy id)).getD (decide (id ∈ metadata.snapshots)) = true := by
    intro id
    rw [← here.snapshots, decide_eq_true_iff, same]
  constructor
  · intro after
    constructor
    · intro registry id named
      have present := after.chosen registry
      rwa [chosen, named, Option.getD_some, ids, here.ids] at present
    · intro pointer id points
      rw [← kept]
      exact after.pointers pointer id ((pointers pointer).trans points)
  · intro keeps
    constructor
    · intro registry
      rw [ids, here.ids, chosen]
      cases named : registry.choice updates.reverse with
      | none => exact .inl (intact.chosen registry)
      | some id => exact keeps.chosen registry id named
    · intro pointer id points
      rw [kept]
      exact keeps.pointers pointer id ((pointers pointer).symm.trans points)

/-- Updates a catalog may be sent: a schema is added and made the current one. -/
def addAndSelect : List TableUpdate :=
  [.addSchema ⟨1, none, ⟨[]⟩⟩ none, .setCurrentSchema (-1)]

theorem longTable_intact (formatVersion : FormatVersion) : Intact (longTable formatVersion) where
  chosen := by
    rintro (_ | _ | _) <;> simp [chosen, ids, longTable]
  pointers := by
    rintro (_ | _) id points <;>
      simp [TableMetadata.pointer, TableMetadata.refTarget, longTable] at points

theorem intact_iff_addAndSelect : ∃ after,
    applyTableUpdates (longTable .v2) addAndSelect 1 = .ok after ∧
      (Intact after ↔ KeepsNamed (longTable .v2) addAndSelect) :=
  ⟨_, rfl, intact_iff (longTable .v2) _ addAndSelect 1 (longTable_intact .v2) rfl⟩

/-- A current schema that was never added is accepted. -/
theorem unknown_schema_selected : ∃ after,
    Intact (longTable .v2) ∧ applyTableUpdates (longTable .v2) [.setCurrentSchema 7] 1 = .ok after ∧
      ¬ Intact after := by
  refine ⟨_, longTable_intact .v2, rfl, fun intact => ?_⟩
  have present := intact.chosen .schemas
  revert present
  decide

end IcebergRust

import IcebergRust.Lib.Fallible
import IcebergRust.View.Operation

/-!
# What a view commit changes

* `Effect` gives the parts of the metadata after updates as functions of the parts before;
  `applyViewUpdates_effect` is the frame lemma of a whole commit.
* `Executed` lists what the operations of a transaction send.  It is all the later results
  use of `Transaction.prepare`.
-/

namespace IcebergRust.View

open Fallible

variable {T : Type}

namespace ViewUpdate

/-- The versions after an update. -/
def versions (versions : HashMap Int (Version T)) : ViewUpdate T → HashMap Int (Version T)
  | .addViewVersion version => versions.insert version.versionId version
  | _ => versions

/-- The schemas after an update. -/
def schemas (schemas : HashMap Int Schema) : ViewUpdate T → HashMap Int Schema
  | .addSchema schema _ => schemas.insert schema.schemaId schema
  | _ => schemas

/-- The current version after an update. -/
def currentVersionId (current : Int) : ViewUpdate T → Int
  | .setCurrentViewVersion versionId => versionId
  | _ => current

/-- The properties after an update. -/
def properties (properties : HashMap String String) : ViewUpdate T → HashMap String String
  | .setProperties updates => properties.extend updates.iter
  | .removeProperties removals => removals.foldl (fun left key => left.erase key) properties
  | _ => properties

end ViewUpdate

/-- The parts of the metadata after updates, as functions of the parts before. -/
structure Effect (before after : GeneralViewMetadata T) (updates : List (ViewUpdate T)) : Prop where
  versions : after.versions = updates.foldl ViewUpdate.versions before.versions
  schemas : after.schemas = updates.foldl ViewUpdate.schemas before.schemas
  currentVersionId :
    after.currentVersionId = updates.foldl ViewUpdate.currentVersionId before.currentVersionId
  properties : after.properties = updates.foldl ViewUpdate.properties before.properties
  /-- No update touches the log. -/
  versionLog : after.versionLog = before.versionLog

theorem Effect.refl (metadata : GeneralViewMetadata T) : Effect metadata metadata [] :=
  ⟨rfl, rfl, rfl, rfl, rfl⟩

theorem Effect.trans {a b c : GeneralViewMetadata T} {first second : List (ViewUpdate T)}
    (one : Effect a b first) (two : Effect b c second) : Effect a c (first ++ second) where
  versions := by rw [two.versions, one.versions, List.foldl_append]
  schemas := by rw [two.schemas, one.schemas, List.foldl_append]
  currentVersionId := by rw [two.currentVersionId, one.currentVersionId, List.foldl_append]
  properties := by rw [two.properties, one.properties, List.foldl_append]
  versionLog := two.versionLog.trans one.versionLog

theorem applyViewUpdate_effect {before after : GeneralViewMetadata T} {update : ViewUpdate T}
    (run : applyViewUpdate before update = .ok after) : Effect before after [update] := by
  cases update with
  | assignUuid uuid =>
    obtain ⟨viewUuid, -, run⟩ := bind_eq_ok.mp run
    injection run with same
    subst same
    exact ⟨rfl, rfl, rfl, rfl, rfl⟩
  | upgradeFormatVersion formatVersion =>
    obtain ⟨-, run⟩ := guard_eq_ok.mp run
    injection run with same
    subst same
    exact ⟨rfl, rfl, rfl, rfl, rfl⟩
  | _ =>
    injection run with same
    subst same
    exact ⟨rfl, rfl, rfl, rfl, rfl⟩

theorem applyViewUpdates_effect {before after : GeneralViewMetadata T}
    {updates : List (ViewUpdate T)} (run : applyViewUpdates before updates = .ok after) :
    Effect before after updates := by
  refine foldlM_prefix_invariant (fun done now => Effect before now done) ?_ run (.refl before)
  intro done update a b _ sofar stepped
  exact sofar.trans (applyViewUpdate_effect stepped)

/-! ### What a transaction sends -/

/-- The updates of an `UpdateRepresentations` that follow those of its schema. -/
def versionUpdates (base : GeneralViewMetadata T) (branchName : String) (version : Version T) :
    List (ViewUpdate T) :=
  [.addViewVersion version, .setCurrentViewVersion (nextVersionId base),
    .setProperties (HashMap.fromIter [(refPrefix ++ branchName, toString (nextVersionId base))])]

/-- The updates that add a schema: none, or one schema under the next id. -/
def AddsSchema (base : GeneralViewMetadata T) (updates : List (ViewUpdate T)) : Prop :=
  updates = [] ∨ ∃ schema column, updates = [.addSchema schema column] ∧
    schema.schemaId = nextSchemaId base

/-- What the operations of a transaction send, in their order. -/
inductive Executed (base : GeneralViewMetadata T) (branchName : String) :
    List Operation → List (ViewUpdate T) → Prop
  | nil : Executed base branchName [] []
  | representations {operations : List Operation} {updates schemas : List (ViewUpdate T)}
      {version : Version T} {representations : List ViewRepresentation} {schema : StructType}
      {branch : Option String} (numbered : version.versionId = nextVersionId base)
      (adds : AddsSchema base schemas) (rest : Executed base branchName operations updates) :
      Executed base branchName (.updateRepresentations representations schema branch :: operations)
        (schemas ++ versionUpdates base branchName version ++ updates)
  | properties {operations : List Operation} {updates : List (ViewUpdate T)}
      (entries : List (String × String)) (rest : Executed base branchName operations updates) :
      Executed base branchName (.updateProperties entries :: operations)
        (.setProperties (HashMap.fromIter entries) :: updates)

/-- An `UpdateRepresentations` adds a version under the next id. -/
theorem execute_representations {base : GeneralViewMetadata T} {now : Int}
    {representations : List ViewRepresentation} {schema : StructType} {branch : Option String}
    {sent : Option ViewRequirement × List (ViewUpdate T)}
    (run : (Operation.updateRepresentations representations schema branch).execute base now =
      .ok sent) :
    ∃ schemas version, version.versionId = nextVersionId base ∧ AddsSchema base schemas ∧
      sent.2 = schemas ++ versionUpdates base (branch.getD "main") version := by
  simp only [Operation.execute, bind_eq_ok] at run
  obtain ⟨current, -, schemaId, numbered, run⟩ := run
  injection run with same
  subst same
  refine ⟨_, _, rfl, ?_, rfl⟩
  unfold versionSchemaId at numbered
  by_cases changed : schemaChanged base branch schema
  · rw [if_pos changed] at numbered ⊢
    injection numbered with chosen
    exact .inr ⟨_, _, rfl, chosen.symm⟩
  · rw [if_neg changed]
    exact .inl rfl

theorem prepare_executed {transaction : Transaction} {base : GeneralViewMetadata T}
    {identifier : String} {clock : Nat → Int} {commit : CommitView T}
    (run : transaction.prepare base identifier clock = .ok commit) :
    Executed base transaction.branchName transaction.operations commit.updates := by
  simp only [Transaction.prepare, bind_eq_ok] at run
  obtain ⟨executed, ran, run⟩ := run
  injection run with same
  subst same
  have onBranch := transaction.onBranch
  have general : ∀ (operations : List Operation) (place : Nat)
      (executed : List (Option ViewRequirement × List (ViewUpdate T))),
      (∀ representations schema branch, .updateRepresentations representations schema branch ∈
        operations → branch = transaction.branch) →
      List.Forall₂ (fun o sent => Operation.execute base (clock o.2) o.1 = .ok sent)
        (operations.zipIdx place) executed →
      Executed base transaction.branchName operations (executed.flatMap (·.2)) := by
    intro operations
    induction operations with
    | nil =>
      intro place executed _ each
      cases each
      exact .nil
    | cons operation operations ih =>
      intro place executed within each
      rw [List.zipIdx_cons] at each
      cases each with
      | cons first others =>
        have rest := ih _ _ (fun r s b member => within r s b (List.mem_cons_of_mem _ member)) others
        rw [List.flatMap_cons]
        cases operation with
        | updateRepresentations representations schema branch =>
          obtain ⟨schemas, version, numbered, adds, sent⟩ := execute_representations first
          rw [sent, within _ _ _ List.mem_cons_self]
          exact .representations numbered adds rest
        | updateProperties entries =>
          injection first with sent
          subst sent
          exact .properties entries rest
  exact general _ _ _ onBranch (mapM_eq_ok.mp ran)

end IcebergRust.View

import IcebergRust.Lib.Optimistic
import IcebergRust.View.Effect
import Mathlib.Data.List.Induction

/-!
# Views under concurrent commits

The transactions of any number of clients against one view, as an optimistic protocol.  The
catalog checks the UUID of the view at most, so a commit is applied to whatever metadata is
current, and its ids are those that were free in the metadata the client has read.

* `NeverRebound`: an id once committed stays bound.  It does exactly if every accepted commit
  picks ids that are free when it is applied, or bound to what it adds.
* `Isolated`: an update of one branch leaves the others, and the current version, as they are.
* `Recorded`: the log has an entry for each change of the current version.  No commit writes
  one.
-/

namespace IcebergRust.View

open Fallible Optimistic

/-! ### Maps that are filled under one key -/

section Maps

variable {β : Type} (key : β → Int) {id : Int} {items : List β}

theorem lookup_foldl_insert (same : ∀ item ∈ items, key item = id) (map : HashMap Int β) (k : Int) :
    (items.foldl (fun map item => map.insert (key item) item) map).lookup k =
      if k = id then items.getLast?.or (map.lookup id) else map.lookup k := by
  induction items using List.reverseRecOn with
  | nil =>
    by_cases here : k = id
    · rw [here, if_pos rfl]
      rfl
    · rw [if_neg here]
      rfl
  | append_singleton items item ih =>
    have last := same item (by simp)
    rw [List.foldl_append, List.getLast?_append]
    simp only [List.foldl_cons, List.foldl_nil, last, List.getLast?_singleton, Option.some_or]
    by_cases here : k = id
    · rw [here, AList.lookup_insert, if_pos rfl]
    · rw [AList.lookup_insert_ne here, if_neg here,
        ih fun other member => same other (List.mem_append_left _ member), if_neg here]

/-- Filling a map keeps its entries exactly if the key is free, or bound to what ends up there. -/
theorem keeps_foldl_insert_iff (same : ∀ item ∈ items, key item = id) (map : HashMap Int β) :
    (∀ k bound, map.lookup k = some bound →
      (items.foldl (fun map item => map.insert (key item) item) map).lookup k = some bound) ↔
      ∀ last ∈ items.getLast?, map.lookup (key last) = none ∨ map.lookup (key last) = some last := by
  simp only [lookup_foldl_insert key same]
  constructor
  · intro keeps last final
    have numbered := same last (List.mem_of_getLast? final)
    rw [numbered]
    cases found : map.lookup id with
    | none => exact .inl rfl
    | some bound =>
      have kept := keeps id bound found
      rw [if_pos rfl, Option.mem_def.mp final, Option.some_or] at kept
      exact .inr kept.symm
  · intro free k bound found
    by_cases here : k = id
    · rw [if_pos here]
      cases final : items.getLast? with
      | none => rw [Option.none_or, ← here, found]
      | some last =>
        have numbered := same last (List.mem_of_getLast? final)
        have or := free last final
        rw [numbered, ← here, found] at or
        rcases or with absent | present
        · cases absent
        · rw [Option.some_or, present]
    · rw [if_neg here, found]

theorem lookup_fromIter_of_absent {pairs : List (String × String)} {name : String}
    (absent : ∀ pair ∈ pairs, pair.1 ≠ name) : (HashMap.fromIter pairs).lookup name = none := by
  have nowhere : pairs.reverse.find? (fun pair => decide (pair.1 = name)) = none := by
    refine List.find?_eq_none.mpr fun pair member => ?_
    simpa using absent pair (List.mem_reverse.mp member)
  refine (HashMap.lookup_extend ∅ pairs name).trans ?_
  rw [nowhere]
  rfl

end Maps

variable {T : Type}

/-! ### What is sent -/

/-- The versions a list of updates adds. -/
def versionsIn (updates : List (ViewUpdate T)) : List (Version T) :=
  updates.filterMap fun
    | .addViewVersion version => some version
    | _ => none

/-- The schemas a list of updates adds. -/
def schemasIn (updates : List (ViewUpdate T)) : List Schema :=
  updates.filterMap fun
    | .addSchema schema _ => some schema
    | _ => none

theorem foldl_versions (updates : List (ViewUpdate T)) (versions : HashMap Int (Version T)) :
    updates.foldl ViewUpdate.versions versions =
      (versionsIn updates).foldl (fun map version => map.insert version.versionId version)
        versions := by
  induction updates generalizing versions with
  | nil => rfl
  | cons update updates ih => cases update <;> exact ih _

theorem foldl_schemas (updates : List (ViewUpdate T)) (schemas : HashMap Int Schema) :
    updates.foldl ViewUpdate.schemas schemas =
      (schemasIn updates).foldl (fun map schema => map.insert schema.schemaId schema)
        schemas := by
  induction updates generalizing schemas with
  | nil => rfl
  | cons update updates ih => cases update <;> exact ih _

@[simp] theorem versionsIn_append (one two : List (ViewUpdate T)) :
    versionsIn (one ++ two) = versionsIn one ++ versionsIn two := List.filterMap_append

@[simp] theorem schemasIn_append (one two : List (ViewUpdate T)) :
    schemasIn (one ++ two) = schemasIn one ++ schemasIn two := List.filterMap_append

namespace AddsSchema

variable {base : GeneralViewMetadata T} {updates : List (ViewUpdate T)}

theorem versionsIn (adds : AddsSchema base updates) : View.versionsIn updates = [] := by
  rcases adds with rfl | ⟨schema, column, rfl, -⟩ <;> rfl

theorem schemaId (adds : AddsSchema base updates) :
    ∀ schema ∈ schemasIn updates, schema.schemaId = nextSchemaId base := by
  rcases adds with rfl | ⟨schema, column, rfl, numbered⟩
  · simp [schemasIn]
  · intro added member
    obtain rfl := List.mem_singleton.mp member
    exact numbered

theorem currentVersionId (adds : AddsSchema base updates) (current : Int) :
    updates.foldl ViewUpdate.currentVersionId current = current := by
  rcases adds with rfl | ⟨schema, column, rfl, -⟩ <;> rfl

theorem properties (adds : AddsSchema base updates) (properties : HashMap String String) :
    updates.foldl ViewUpdate.properties properties = properties := by
  rcases adds with rfl | ⟨schema, column, rfl, -⟩ <;> rfl

end AddsSchema

/-- The pointers after an update of a branch. -/
theorem pointer_versionUpdates (base : GeneralViewMetadata T) (branchName : String)
    (version : Version T) (properties : HashMap String String) (name : String) :
    ((versionUpdates base branchName version).foldl ViewUpdate.properties properties).lookup
        (refPrefix ++ name) =
      if name = branchName then some (toString (nextVersionId base))
      else properties.lookup (refPrefix ++ name) := by
  refine (HashMap.lookup_extend_iter properties _ _).trans ?_
  by_cases here : name = branchName
  · rw [here, if_pos rfl]
    show (AList.lookup _ (AList.insert _ _ ∅)).or _ = _
    rw [AList.lookup_insert, Option.some_or]
  · have absent : ∀ pair ∈ [(refPrefix ++ branchName, toString (nextVersionId base))],
        pair.1 ≠ refPrefix ++ name := by
      intro pair member same
      obtain rfl := List.mem_singleton.mp member
      exact here ((String.append_right_inj _).mp same).symm
    rw [lookup_fromIter_of_absent absent, Option.none_or, if_neg here]

/-- The operation adds a version. -/
def Operation.isUpdate : Operation → Bool
  | .updateRepresentations .. => true
  | .updateProperties _ => false

/-- No property entry of the operations is a branch pointer. -/
def NamesNoPointer (operations : List Operation) : Prop :=
  ∀ entries, .updateProperties entries ∈ operations →
    ∀ entry ∈ entries, ∀ name, entry.1 ≠ refPrefix ++ name

namespace Executed

variable {base : GeneralViewMetadata T} {branchName : String} {operations : List Operation}
  {updates : List (ViewUpdate T)}

theorem versionId (executed : Executed base branchName operations updates) :
    ∀ version ∈ versionsIn updates, version.versionId = nextVersionId base := by
  induction executed with
  | nil => simp [versionsIn]
  | @representations operations updates schemas added _ _ _ numbered adds rest ih =>
    intro version member
    rw [versionsIn_append, versionsIn_append, adds.versionsIn, List.nil_append] at member
    rcases List.mem_append.mp member with here | later
    · obtain rfl := List.mem_singleton.mp here
      exact numbered
    · exact ih version later
  | properties entries rest ih => exact ih

theorem schemaId (executed : Executed base branchName operations updates) :
    ∀ schema ∈ schemasIn updates, schema.schemaId = nextSchemaId base := by
  induction executed with
  | nil => simp [schemasIn]
  | representations numbered adds rest ih =>
    intro schema member
    rw [schemasIn_append, schemasIn_append] at member
    rcases List.mem_append.mp member with early | later
    · rcases List.mem_append.mp early with here | other
      · exact adds.schemaId schema here
      · simp [schemasIn, versionUpdates] at other
    · exact ih schema later
  | properties entries rest ih => exact ih

theorem length_versionsIn (executed : Executed base branchName operations updates) :
    (versionsIn updates).length = operations.countP Operation.isUpdate := by
  induction executed with
  | nil => rfl
  | representations numbered adds rest ih =>
    rw [versionsIn_append, versionsIn_append, adds.versionsIn, List.nil_append,
      List.length_append, ih, List.countP_cons]
    simp [versionsIn, versionUpdates, Operation.isUpdate, Nat.add_comm]
  | properties entries rest ih => exact ih

theorem currentVersionId (executed : Executed base branchName operations updates) (current : Int) :
    updates.foldl ViewUpdate.currentVersionId current =
      if versionsIn updates = [] then current else nextVersionId base := by
  induction executed generalizing current with
  | nil => rfl
  | @representations operations updates schemas added _ _ _ numbered adds rest ih =>
    have adding : versionsIn (schemas ++ versionUpdates base branchName added ++ updates) ≠ [] := by
      simp [versionsIn, versionUpdates]
    rw [if_neg adding, List.foldl_append, List.foldl_append, adds.currentVersionId]
    refine (ih (nextVersionId base)).trans ?_
    split <;> rfl
  | properties entries rest ih => exact ih current

/-- The pointers after the updates: only that of the branch has moved. -/
theorem pointer (executed : Executed base branchName operations updates)
    (names : NamesNoPointer operations) (properties : HashMap String String) (name : String) :
    (updates.foldl ViewUpdate.properties properties).lookup (refPrefix ++ name) =
      if versionsIn updates ≠ [] ∧ name = branchName then some (toString (nextVersionId base))
      else properties.lookup (refPrefix ++ name) := by
  induction executed generalizing properties with
  | nil => simp [versionsIn]
  | @representations operations updates schemas added _ _ _ numbered adds rest ih =>
    have adding : versionsIn (schemas ++ versionUpdates base branchName added ++ updates) ≠ [] := by
      simp [versionsIn, versionUpdates]
    have later : NamesNoPointer operations := fun entries member =>
      names entries (List.mem_cons_of_mem _ member)
    rw [List.foldl_append, List.foldl_append, adds.properties]
    refine (ih later _).trans ?_
    rw [pointer_versionUpdates]
    by_cases here : name = branchName
    · rw [if_pos here, ite_self, if_pos ⟨adding, here⟩]
    · rw [if_neg here, if_neg fun both => here both.2, if_neg fun both => here both.2]
  | properties entries rest ih =>
    have later : NamesNoPointer _ := fun entries member =>
      names entries (List.mem_cons_of_mem _ member)
    have kept : (ViewUpdate.properties properties (.setProperties (HashMap.fromIter entries) :
        ViewUpdate T)).lookup (refPrefix ++ name) = properties.lookup (refPrefix ++ name) := by
      refine (HashMap.lookup_extend_iter _ _ _).trans ?_
      rw [lookup_fromIter_of_absent fun entry member =>
        names entries List.mem_cons_self entry member name, Option.none_or]
    refine (ih later _).trans ?_
    rw [kept]
    rfl

end Executed

/-! ### The protocol -/

/-- What a client asks for: a transaction, and the times its operations read. -/
structure ViewRequest where
  transaction : Transaction
  identifier : String
  clock : Nat → Int

/-- Preparing a request from some metadata, and applying it to the current one. -/
def viewProtocol (T : Type) :
    Protocol (GeneralViewMetadata T) Unit ViewRequest (CommitView T) Unit where
  prepare request base _ :=
    ((request.transaction.prepare base request.identifier request.clock).map
      fun commit => ((), some commit)).toOption
  apply commit _ metadata :=
    if checkViewRequirements commit.requirements metadata then
      (applyViewUpdates metadata commit.updates).toOption
    else none

/-- The clients and the catalog of one view. -/
abbrev ViewState (T : Type) :=
  State (GeneralViewMetadata T) Unit ViewRequest (CommitView T) Unit

abbrev AcceptedView (T : Type) :=
  Accepted (GeneralViewMetadata T) ViewRequest (CommitView T) Unit

/-- The state of a view after events, from its initial metadata. -/
def runView (initial : GeneralViewMetadata T) (events : List (Event ViewRequest Unit)) :
    ViewState T :=
  run (viewProtocol T) (.start initial ()) events

/-- The transaction of an accepted commit. -/
def transactionOf (entry : AcceptedView T) : Transaction := entry.proposal.request.transaction

/-- The versions an accepted commit adds. -/
def versionsSent (entry : AcceptedView T) : List (Version T) :=
  versionsIn entry.proposal.commit.updates

/-- The schemas an accepted commit adds. -/
def schemasSent (entry : AcceptedView T) : List Schema := schemasIn entry.proposal.commit.updates

/-- Everything known of an accepted commit. -/
structure AcceptedSpec (entry : AcceptedView T) : Prop where
  executed : Executed entry.proposal.base (transactionOf entry).branchName
    (transactionOf entry).operations entry.proposal.commit.updates
  effect : Effect entry.current entry.next entry.proposal.commit.updates

variable {entry : AcceptedView T}

theorem viewHistory_spec {initial : GeneralViewMetadata T} {accepted : List (AcceptedView T)}
    (history : History (viewProtocol T) initial accepted) (member : entry ∈ accepted) :
    AcceptedSpec entry := by
  obtain ⟨later, past, rfl⟩ := List.append_of_mem member
  obtain ⟨-, -, ⟨before, after, prepared⟩, applied⟩ := history.entry_spec
  obtain ⟨commit, prepared, same⟩ := map_eq_ok.mp (toOption_eq_some.mp prepared)
  cases same
  simp only [viewProtocol] at applied
  split at applied
  · exact ⟨prepare_executed prepared, applyViewUpdates_effect (toOption_eq_some.mp applied)⟩
  · cases applied

/-! ### Ids stay bound -/

/-- Every version and schema bound in the earlier metadata is bound to the same in the later one. -/
def StaysBound (earlier later : GeneralViewMetadata T) : Prop :=
  (∀ id version, earlier.versions.lookup id = some version →
    later.versions.lookup id = some version) ∧
  (∀ id schema, earlier.schemas.lookup id = some schema →
    later.schemas.lookup id = some schema)

/-- Of any two committed versions of the metadata the later one binds what the earlier one does. -/
def NeverRebound (state : ViewState T) : Prop :=
  state.versions.Pairwise fun later earlier => StaysBound earlier later

/-- The version and the schema the commit leaves under the ids it has picked were free in the
metadata it is applied to, or are what was bound there. -/
def RebindsNothing (entry : AcceptedView T) : Prop :=
  (∀ version ∈ (versionsSent entry).getLast?,
    entry.current.versions.lookup version.versionId = none ∨
      entry.current.versions.lookup version.versionId = some version) ∧
  (∀ schema ∈ (schemasSent entry).getLast?,
    entry.current.schemas.lookup schema.schemaId = none ∨
      entry.current.schemas.lookup schema.schemaId = some schema)

theorem AcceptedSpec.staysBound_iff (spec : AcceptedSpec entry) :
    StaysBound entry.current entry.next ↔ RebindsNothing entry := by
  unfold StaysBound RebindsNothing
  rw [spec.effect.versions, spec.effect.schemas, foldl_versions, foldl_schemas,
    keeps_foldl_insert_iff Version.versionId spec.executed.versionId,
    keeps_foldl_insert_iff Schema.schemaId spec.executed.schemaId]
  rfl

theorem versionsStayBound_iff (initial : GeneralViewMetadata T) (events : List (Event ViewRequest Unit)) :
    NeverRebound (runView initial events) ↔
      ∀ entry ∈ (runView initial events).accepted, RebindsNothing entry := by
  have history : History (viewProtocol T) initial (runView initial events).accepted :=
    history_run initial () events
  have begun : (runView initial events).initial = initial := run_initial _ events
  unfold NeverRebound State.versions
  rw [begun]
  refine (history.pairwise_iff StaysBound (fun _ => ⟨fun _ _ h => h, fun _ _ h => h⟩) ?_).trans ?_
  · intro a b c one two
    exact ⟨fun id version found => two.1 id version (one.1 id version found),
      fun id schema found => two.2 id schema (one.2 id schema found)⟩
  · exact forall₂_congr fun entry member => (viewHistory_spec history member).staysBound_iff

/-! ### Branches are isolated -/

/-- After an update its branch resolves to each version it has added, every other branch with a
pointer to what it did before, and so does the view itself unless the branch is `main`. -/
def Isolated (entry : AcceptedView T) : Prop :=
  ∀ version ∈ versionsSent entry,
    entry.next.currentVersion (some (transactionOf entry).branchName) = .ok version ∧
    (∀ other, other ≠ (transactionOf entry).branchName →
      (entry.current.branchPointer other).isSome →
      entry.next.currentVersion (some other) = entry.current.currentVersion (some other)) ∧
    ((transactionOf entry).branchName ≠ "main" →
      entry.next.currentVersion none = entry.current.currentVersion none)

/-- The transaction updates the representations once at most, and sets no branch pointer by a
property. -/
def Plain (entry : AcceptedView T) : Prop :=
  (transactionOf entry).operations.countP Operation.isUpdate ≤ 1 ∧
    NamesNoPointer (transactionOf entry).operations

/-- The update is on `main`, or what it adds is already the current version; and no other branch
points at the id it has picked, unless what it adds is already bound there. -/
def TouchesOnlyItsBranch (entry : AcceptedView T) : Prop :=
  ∀ version ∈ versionsSent entry,
    ((transactionOf entry).branchName = "main" ∨
      entry.current.currentVersion none = .ok version) ∧
    ∀ other, other ≠ (transactionOf entry).branchName →
      entry.current.branchPointer other = some version.versionId →
      entry.current.versions.lookup version.versionId = some version

namespace AcceptedSpec

variable {entry : AcceptedView T} {version : Version T}

theorem currentVersionId (spec : AcceptedSpec entry) (sent : version ∈ versionsSent entry) :
    entry.next.currentVersionId = version.versionId := by
  have adding : versionsIn entry.proposal.commit.updates ≠ [] := List.ne_nil_of_mem sent
  rw [spec.effect.currentVersionId, spec.executed.currentVersionId, if_neg adding,
    spec.executed.versionId version sent]

theorem versions_lookup (spec : AcceptedSpec entry) (plain : Plain entry)
    (sent : version ∈ versionsSent entry) (id : Int) :
    entry.next.versions.lookup id =
      if id = version.versionId then some version else entry.current.versions.lookup id := by
  have once : (versionsSent entry).length ≤ 1 := by
    rw [versionsSent, spec.executed.length_versionsIn]
    exact plain.1
  have only : versionsIn entry.proposal.commit.updates = [version] := by
    obtain ⟨added, same⟩ := List.length_eq_one_iff.mp
      (Nat.le_antisymm once (List.length_pos_of_mem sent))
    rw [same, List.mem_singleton] at sent
    exact sent ▸ same
  rw [spec.effect.versions, foldl_versions,
    lookup_foldl_insert Version.versionId spec.executed.versionId, only,
    ← spec.executed.versionId version sent]
  rfl

theorem branchPointer (spec : AcceptedSpec entry) (plain : Plain entry)
    (sent : version ∈ versionsSent entry) (name : String) :
    entry.next.branchPointer name =
      if name = (transactionOf entry).branchName then some version.versionId
      else entry.current.branchPointer name := by
  have adding : versionsIn entry.proposal.commit.updates ≠ [] := List.ne_nil_of_mem sent
  unfold GeneralViewMetadata.branchPointer
  rw [spec.effect.properties, spec.executed.pointer plain.2,
    spec.executed.versionId version sent]
  by_cases here : name = (transactionOf entry).branchName
  · rw [if_pos ⟨adding, here⟩, if_pos here, Option.bind_some, nextVersionId, parseI64_wrapI64]
  · rw [if_neg fun both => here both.2, if_neg here]

/-- After an accepted update the view resolves to what it has added. -/
theorem currentVersion_none (spec : AcceptedSpec entry) (plain : Plain entry)
    (sent : version ∈ versionsSent entry) : entry.next.currentVersion none = .ok version := by
  refine GeneralViewMetadata.currentVersion_eq_ok.mpr ?_
  show entry.next.versions.lookup entry.next.currentVersionId = some version
  rw [spec.currentVersionId sent, spec.versions_lookup plain sent, if_pos rfl]

theorem isolated_iff (spec : AcceptedSpec entry) (plain : Plain entry) :
    Isolated entry ↔ TouchesOnlyItsBranch entry := by
  refine forall₂_congr fun version sent => ?_
  have lookup := spec.versions_lookup plain sent
  have pointer := spec.branchPointer plain sent
  have here := spec.currentVersion_none plain sent
  constructor
  · rintro ⟨-, others, view⟩
    refine ⟨?_, ?_⟩
    · by_cases main : (transactionOf entry).branchName = "main"
      · exact .inl main
      · exact .inr ((view main).symm.trans here)
    · intro other differs points
      have same := others other differs (by rw [points]; rfl)
      have after : entry.next.branchPointer other = some version.versionId := by
        rw [pointer other, if_neg differs, points]
      rw [GeneralViewMetadata.currentVersion_eq_iff after points, lookup, if_pos rfl] at same
      exact same.symm
  · rintro ⟨view, others⟩
    refine ⟨?_, ?_, ?_⟩
    · have after := pointer (transactionOf entry).branchName
      rw [if_pos rfl] at after
      rw [GeneralViewMetadata.currentVersion_of_pointer after, lookup, if_pos rfl]
    · intro other differs branch
      obtain ⟨id, points⟩ := Option.isSome_iff_exists.mp branch
      have after : entry.next.branchPointer other = some id := by
        rw [pointer other, if_neg differs, points]
      rw [GeneralViewMetadata.currentVersion_eq_iff after points, lookup]
      by_cases picked : id = version.versionId
      · rw [if_pos picked, picked, others other differs (picked ▸ points)]
      · rw [if_neg picked]
    · intro branch
      rcases view with main | current
      · exact absurd main branch
      · exact here.trans current.symm

end AcceptedSpec

/-! ### The version log -/

/-- Each change of the current version has an entry in the log. -/
def Recorded (entry : AcceptedView T) : Prop :=
  entry.next.currentVersionId ≠ entry.current.currentVersionId →
    ∃ added, entry.next.versionLog = entry.current.versionLog ++ added ∧
      ∃ logged ∈ added, logged.versionId = entry.next.currentVersionId

/-- The id of every version the commit adds is the current one already. -/
def KeepsCurrentId (entry : AcceptedView T) : Prop :=
  ∀ version ∈ versionsSent entry, version.versionId = entry.current.currentVersionId

theorem AcceptedSpec.recorded_iff (spec : AcceptedSpec entry) :
    Recorded entry ↔ KeepsCurrentId entry := by
  constructor
  · intro recorded version sent
    rw [← spec.currentVersionId sent]
    by_contra changed
    obtain ⟨added, extended, logged, member, -⟩ := recorded changed
    rw [spec.effect.versionLog, List.self_eq_append_right] at extended
    rw [extended] at member
    cases member
  · intro keeps changed
    refine absurd ?_ changed
    rw [spec.effect.currentVersionId, spec.executed.currentVersionId]
    split
    · rfl
    · rename_i adding
      obtain ⟨version, sent⟩ := List.exists_mem_of_ne_nil _ adding
      rw [← spec.executed.versionId version sent]
      exact keeps version sent

/-- The schema of the views below. -/
def countSchema : Schema :=
  ⟨0, none, ⟨[⟨1, "count", false, .primitive .int, none, none, none⟩]⟩⟩

/-- A view as it is created: one version, and no branch pointer. -/
def createdView : GeneralViewMetadata (Option Unit) where
  viewUuid := ⟨0⟩
  formatVersion := .v1
  location := "s3://views/count"
  currentVersionId := 0
  versions := HashMap.fromIter
    [(0, ⟨0, 0, 0, ⟨.create, none, none⟩, [.sql "SELECT 0" "ansi"], none, [], none⟩)]
  versionLog := []
  schemas := HashMap.fromIter [(0, countSchema)]
  properties := ∅

/-- The request to redefine the view on a branch. -/
def redefine (branch : Option String) (sql : String) : ViewRequest where
  transaction := (Transaction.new branch).updateRepresentations [.sql sql "ansi"] countSchema.fields
  identifier := "views.count"
  clock := fun _ => 1

/-- Two clients read the created view, one redefines the branch `dev` and the other one `main`. -/
def twoRedefinitions : List (Event ViewRequest Unit) :=
  [.prepare 0 (redefine (some "dev") "SELECT 1"), .prepare 0 (redefine none "SELECT 2"),
    .send 0 (), .send 0 ()]

end IcebergRust.View

import IcebergRust.Catalog.GlueCatalog
import IcebergRust.Catalog.S3TablesCatalog

/-!
# Steps under version tokens

What a request does up to its first pause, and what the next step of a call does, at either
catalog.
-/

namespace IcebergRust.VersionTokens

open TabularFiles

/-- The metadata of an update is what its commit makes of the cached metadata. -/
def Update.Computed (update : Update) : Prop :=
  update.commit.apply update.base = .ok update.version.metadata

/-! ### The beginning of a call -/

/-- What a request does up to its first pause. -/
inductive Begins (locate : TabularMetadata → Uuid → String) (shared : Shared) :
    Shared → Option Call → Prop
  | returned : Begins locate shared shared none
  | located (catalog : Nat) (identifier : Identifier) (entity : Entity) (version : TabularVersion)
      (found : shared.entities identifier.key = some entity)
      (current : entity.current = some version) :
      Begins locate shared shared (some (.located catalog identifier entity.token version.location))
  | creating (catalog : Nat) (identifier : Identifier) (version : TabularVersion)
      (transactionUuid : Uuid) (fresh : transactionUuid ∉ shared.uuids)
      (named : TabularFiles.Named locate version transactionUuid) :
      Begins locate shared (shared.draw transactionUuid)
        (some (.creating catalog identifier version transactionUuid))
  | computed (catalog : Nat) (update : Update) (fresh : update.transactionUuid ∉ shared.uuids)
      (cached : shared.caches catalog update.identifier = some (update.token, update.base))
      (named : TabularFiles.Named locate update.version update.transactionUuid)
      (applied : update.Computed) :
      Begins locate shared (shared.draw update.transactionUuid) (some (.computed catalog update))
  | dropped (key : Key) : Begins locate shared (shared.delete key) none

theorem begin_begins (locate : TabularMetadata → Uuid → String) (request : Request)
    (shared : Shared) :
    Begins locate shared (begin locate request shared).1 (begin locate request shared).2 := by
  cases request with
  | loadTabular catalog identifier =>
    simp only [VersionTokens.begin]
    cases found : shared.entities identifier.key with
    | none => exact .returned
    | some entity =>
      cases current : entity.current with
      | none =>
        simp only [current]
        exact .returned
      | some version =>
        simp only [current]
        exact .located catalog identifier entity version found current
  | create catalog identifier metadata transactionUuid =>
    simp only [VersionTokens.begin]
    split
    · exact .returned
    · rename_i fresh
      exact .creating catalog identifier _ transactionUuid fresh (.inl rfl)
  | update catalog identifier commit transactionUuid =>
    simp only [VersionTokens.begin, beginUpdate]
    split
    · exact .returned
    · rename_i fresh
      split
      · exact .returned
      · rename_i token base cached
        split
        · exact .returned
        · rename_i metadata applied
          exact .computed catalog ⟨identifier, token, base, commit, _, transactionUuid⟩ fresh cached
            (.inr rfl) applied
  | drop identifier => exact .dropped identifier.key

/-! ### The next step of a call -/

/-- What the next step of a call does, at either catalog. -/
inductive Proceeds (shared : Shared) : Call → Shared → Option Call → Prop
  | ended (call : Call) : Proceeds shared call shared none
  | waits (call : Call) : Proceeds shared call shared (some call)
  | fetched (call : Call) (catalog : Nat) (identifier : Identifier) (token : Nat)
      (location : String) (metadata : TabularMetadata) (file : TabularFile)
      (reads : call = .located catalog identifier token location ∨
        ∃ update, call = .refetching catalog update token location ∧
          update.identifier = identifier)
      (found : shared.files location = some file) (read : file.metadata = metadata) :
      Proceeds shared call shared (some (.fetched catalog identifier token metadata))
  | cached (catalog : Nat) (identifier : Identifier) (token : Nat) (metadata : TabularMetadata) :
      Proceeds shared (.fetched catalog identifier token metadata)
        (shared.cache catalog identifier token metadata) none
  | written (catalog : Nat) (identifier : Identifier) (version : TabularVersion)
      (transactionUuid : Uuid) :
      Proceeds shared (.creating catalog identifier version transactionUuid)
        (shared.putMetadata version) (some (.written catalog identifier version))
  | bound (catalog : Nat) (identifier : Identifier) (version : TabularVersion)
      (transactionUuid : Uuid) (token : Nat) :
      Proceeds shared (.granted catalog identifier version transactionUuid token)
        (shared.putMetadata version) (some (.binding catalog identifier version token))
  | staged (catalog : Nat) (update : Update) :
      Proceeds shared (.computed catalog update) (shared.putMetadata update.version)
        (some (.staged catalog update))
  | created (catalog : Nat) (identifier : Identifier) (version : TabularVersion) (token : Nat) :
      Proceeds shared (.written catalog identifier version)
        (shared.issue identifier.key token (some version))
        (some (.created catalog identifier version))
  | registered (catalog : Nat) (identifier : Identifier) (version : TabularVersion)
      (transactionUuid : Uuid) (token : Nat) :
      Proceeds shared (.creating catalog identifier version transactionUuid)
        (shared.issue identifier.key token none)
        (some (.registered catalog identifier version transactionUuid))
  | reread (catalog : Nat) (identifier : Identifier) (version : TabularVersion) (entity : Entity)
      (found : shared.entities identifier.key = some entity) :
      Proceeds shared (.created catalog identifier version)
        (shared.reread (some version.location) entity.current)
        (some (.fetched catalog identifier entity.token version.metadata))
  | granted (catalog : Nat) (identifier : Identifier) (version : TabularVersion)
      (transactionUuid : Uuid) (entity : Entity)
      (found : shared.entities identifier.key = some entity) :
      Proceeds shared (.registered catalog identifier version transactionUuid)
        (shared.reread none entity.current)
        (some (.granted catalog identifier version transactionUuid entity.token))
  | first (catalog : Nat) (identifier : Identifier) (version : TabularVersion) (old token : Nat)
      (entity : Entity) (found : shared.entities identifier.key = some entity)
      (current : entity.token = old) :
      Proceeds shared (.binding catalog identifier version old)
        (shared.accept identifier.key token version none entity.current)
        (some (.fetched catalog identifier token version.metadata))
  | accepted (catalog : Nat) (update : Update) (token : Nat) (entity : Entity) (next : Call)
      (found : shared.entities update.identifier.key = some entity)
      (current : entity.token = update.token)
      (answers : next = .committed catalog update ∨
        next = .fetched catalog update.identifier token update.version.metadata) :
      Proceeds shared (.staged catalog update)
        (shared.accept update.identifier.key token update.version (some update) entity.current)
        (some next)
  | kept (catalog : Nat) (update : Update) (entity : Entity) (version : TabularVersion)
      (found : shared.entities update.identifier.key = some entity)
      (current : entity.current = some version)
      (same : version.location = update.version.location) :
      Proceeds shared (.committed catalog update) shared
        (some (.fetched catalog update.identifier entity.token update.version.metadata))
  | other (catalog : Nat) (update : Update) (entity : Entity) (version : TabularVersion)
      (found : shared.entities update.identifier.key = some entity)
      (current : entity.current = some version) :
      Proceeds shared (.committed catalog update) shared
        (some (.refetching catalog update entity.token version.location))

theorem fetch_proceeds {catalog : Nat} {identifier : Identifier} {token : Nat} {location : String}
    {shared : Shared} : Proceeds shared (.located catalog identifier token location) shared
      (fetch catalog identifier token location shared) := by
  unfold fetch
  cases found : shared.files location with
  | none => exact .ended _
  | some file =>
    rw [Option.map_some]
    split
    · rename_i metadata read
      exact .fetched _ catalog identifier token location metadata file (.inl rfl) found
        (TabularFile.fromSlice_eq_ok.mp (Option.some.inj read)).2
    · exact .ended _

/-- The answer of the service to an update. -/
theorem applyUpdate_cases (key : Key) (token new : Nat) (version : TabularVersion)
    (update : Option Update) (call next : Call) (shared : Shared) :
    (applyUpdate key token new version update call next shared = (shared, none) ∨
      applyUpdate key token new version update call next shared = (shared, some call)) ∨
    ∃ entity, shared.entities key = some entity ∧ entity.token = token ∧
      applyUpdate key token new version update call next shared =
        (shared.accept key new version update entity.current, some next) := by
  unfold applyUpdate
  cases found : shared.entities key with
  | none => exact .inl (.inl rfl)
  | some entity =>
    simp only
    split
    · rename_i current
      split
      · exact .inl (.inr rfl)
      · exact .inr ⟨entity, rfl, current, rfl⟩
    · exact .inl (.inl rfl)

theorem createEntity_cases (key : Key) (token : Nat) (current : Option TabularVersion) (next : Call)
    (shared : Shared) : createEntity key token current next shared = (shared, none) ∨
      createEntity key token current next shared =
        (shared.issue key token current, some next) := by
  unfold createEntity
  cases shared.entities key with
  | none => exact .inr rfl
  | some entity => exact .inl rfl

end IcebergRust.VersionTokens

namespace IcebergRust.GlueCatalog

open VersionTokens

theorem metadata_of_reread {commit : TabularCommit} {location : String} {file : TabularFile}
    {metadata : TabularMetadata} (read : reread commit location file = .ok metadata) :
    file.metadata = metadata := by
  cases commit with
  | table commit now =>
    simp only [reread] at read
    split at read
    · rename_i content known
      cases read
      exact (TabularFile.fromSlice_eq_ok.mp known).2
    · cases read
    · cases read
  | view commit => exact TabularFile.metadata_of_parse read
  | materializedView commit => exact TabularFile.metadata_of_parse read

theorem advance_proceeds (token : Nat) (call : Call) (shared : Shared) :
    Proceeds shared call (advance token call shared).1 (advance token call shared).2 := by
  cases call with
  | located catalog identifier token location => exact fetch_proceeds
  | fetched catalog identifier token metadata => exact .cached catalog identifier token metadata
  | creating catalog identifier version transactionUuid =>
    exact .written catalog identifier version transactionUuid
  | written catalog identifier version =>
    simp only [advance]
    rcases createEntity_cases identifier.key token (some version)
      (.created catalog identifier version) shared with same | same
    · rw [same]
      exact .ended _
    · rw [same]
      exact .created catalog identifier version token
  | created catalog identifier version =>
    simp only [advance]
    split
    · exact .ended _
    · rename_i entity found
      exact .reread catalog identifier version entity found
  | computed catalog update => exact .staged catalog update
  | staged catalog update =>
    simp only [advance]
    rcases applyUpdate_cases update.identifier.key update.token token update.version
      (some update) (.staged catalog update) (.committed catalog update) shared with
      (same | same) | ⟨entity, found, current, same⟩
    · rw [same]
      exact .ended _
    · rw [same]
      exact .waits _
    · rw [same]
      exact .accepted catalog update token entity _ found current (.inl rfl)
  | committed catalog update =>
    simp only [advance]
    split
    · exact .ended _
    · rename_i entity found
      split
      · exact .ended _
      · rename_i version current
        split
        · rename_i same
          exact .kept catalog update entity version found current same
        · exact .other catalog update entity version found current
  | refetching catalog update token location =>
    simp only [advance]
    cases found : shared.files location with
    | none => exact .ended _
    | some file =>
      rw [Option.map_some]
      split
      · rename_i metadata read
        exact .fetched _ catalog update.identifier token location metadata file
          (.inr ⟨update, rfl, rfl⟩) found (metadata_of_reread (Option.some.inj read))
      · exact .ended _
  | registered => exact .ended _
  | granted => exact .ended _
  | binding => exact .ended _

end IcebergRust.GlueCatalog

namespace IcebergRust.S3TablesCatalog

open VersionTokens

theorem advance_proceeds (token : Nat) (call : Call) (shared : Shared) :
    Proceeds shared call (advance token call shared).1 (advance token call shared).2 := by
  cases call with
  | located catalog identifier token location => exact fetch_proceeds
  | fetched catalog identifier token metadata => exact .cached catalog identifier token metadata
  | creating catalog identifier version transactionUuid =>
    simp only [advance]
    rcases createEntity_cases identifier.key token none
      (.registered catalog identifier version transactionUuid) shared with same | same
    · rw [same]
      exact .ended _
    · rw [same]
      exact .registered catalog identifier version transactionUuid token
  | registered catalog identifier version transactionUuid =>
    simp only [advance]
    split
    · exact .ended _
    · rename_i entity found
      exact .granted catalog identifier version transactionUuid entity found
  | granted catalog identifier version transactionUuid token =>
    exact .bound catalog identifier version transactionUuid token
  | binding catalog identifier version old =>
    simp only [advance]
    rcases applyUpdate_cases identifier.key old token version none
      (.binding catalog identifier version old)
      (.fetched catalog identifier token version.metadata) shared with
      (same | same) | ⟨entity, found, current, same⟩
    · rw [same]
      exact .ended _
    · rw [same]
      exact .waits _
    · rw [same]
      exact .first catalog identifier version old token entity found current
  | computed catalog update => exact .staged catalog update
  | staged catalog update =>
    simp only [advance]
    rcases applyUpdate_cases update.identifier.key update.token token update.version
      (some update) (.staged catalog update)
      (.fetched catalog update.identifier token update.version.metadata) shared with
      (same | same) | ⟨entity, found, current, same⟩
    · rw [same]
      exact .ended _
    · rw [same]
      exact .waits _
    · rw [same]
      exact .accepted catalog update token entity _ found current (.inr rfl)
  | written => exact .ended _
  | created => exact .ended _
  | committed => exact .ended _
  | refetching => exact .ended _

end IcebergRust.S3TablesCatalog

import IcebergRust.Catalog.WrittenOnce
import IcebergRust.Lib.Interleaving

/-!
# Catalogs on a service with version tokens

What `iceberg-glue-catalog` and `iceberg-s3tables-catalog` share: a service that keeps a metadata
location for each entity and gives out a token with it, metadata files in an object store, and
any number of catalog instances, each with a cache of tokens and metadata.

* The service updates an entity only if the token passed is the current one, and then issues a
  token it has not issued for the entity before.
* Tokens and metadata come from separate requests; `Call` is what a call knows between two of
  them.
-/

namespace IcebergRust.VersionTokens

/-- The name of an entity at the service. -/
abbrev Key := String × String

end VersionTokens

/-- The names the service is passed for an identifier. -/
def Identifier.key (identifier : Identifier) : VersionTokens.Key :=
  (identifier.ns.display, identifier.name)

namespace VersionTokens

/-- An entity at the service. It stores the location of the current version only; the metadata is
that which the file was written with. -/
structure Entity where
  token : Nat
  current : Option TabularVersion

/-- A token, and what was current when the service issued it. -/
structure Issued where
  key : Key
  token : Nat
  current : Option TabularVersion

/-- An update on its way, with the cache entry it was computed from. -/
structure Update where
  identifier : Identifier
  token : Nat
  base : TabularMetadata
  commit : TabularCommit
  version : TabularVersion
  transactionUuid : Uuid

/-- An update the service has applied, and the version it has replaced; there is no update where an
entity is given its first metadata. -/
structure Accepted where
  update : Option Update
  replaced : Option TabularVersion

/-- What a creation found when it asked the service for the token of what it had created: the
location it expects there, and the one that is there. -/
structure Reread where
  expected : Option String
  found : Option String
deriving DecidableEq

/-- What the instances share, and the cache of each. `issued` are all tokens so far, `uuids` those
drawn so far; the accepted updates and the rereads of creations are listed newest first. -/
structure Shared where
  entities : Key → Option Entity
  files : TabularFiles
  caches : Nat → Identifier → Option (Nat × TabularMetadata)
  uuids : List Uuid
  issued : List Issued
  accepted : List Accepted
  rereads : List Reread

namespace Shared

variable (shared : Shared)

/-- Nothing has been created yet. -/
def empty : Shared := ⟨fun _ => none, fun _ => none, fun _ _ => none, [], [], [], []⟩

def draw (transactionUuid : Uuid) : Shared :=
  { shared with uuids := transactionUuid :: shared.uuids }

def putMetadata (version : TabularVersion) : Shared :=
  { shared with files := shared.files.put version }

def cache (catalog : Nat) (identifier : Identifier) (token : Nat) (metadata : TabularMetadata) :
    Shared :=
  { shared with
    caches := fun other name =>
      if other = catalog ∧ name = identifier then some (token, metadata)
      else shared.caches other name }

/-- The service gives an entity a version and a token. -/
def issue (key : Key) (token : Nat) (current : Option TabularVersion) : Shared :=
  { shared with
    entities := Function.update shared.entities key (some ⟨token, current⟩)
    issued := ⟨key, token, current⟩ :: shared.issued }

/-- `delete_table` of the service. -/
def delete (key : Key) : Shared :=
  { shared with entities := Function.update shared.entities key none }

/-- An update the service applies. -/
def accept (key : Key) (token : Nat) (version : TabularVersion) (update : Option Update)
    (replaced : Option TabularVersion) : Shared :=
  { shared.issue key token (some version) with accepted := ⟨update, replaced⟩ :: shared.accepted }

def reread (expected : Option String) (found : Option TabularVersion) : Shared :=
  { shared with rereads := ⟨expected, found.map (·.location)⟩ :: shared.rereads }

/-- The service has issued the token for the entity. -/
def hasIssued (key : Key) (token : Nat) : Bool :=
  shared.issued.any fun issued => issued.key = key ∧ issued.token = token

end Shared

/-! ### Calls -/

inductive Request where
  | loadTabular (catalog : Nat) (identifier : Identifier)
  | create (catalog : Nat) (identifier : Identifier) (metadata : TabularMetadata)
      (transactionUuid : Uuid)
  | update (catalog : Nat) (identifier : Identifier) (commit : TabularCommit)
      (transactionUuid : Uuid)
  | drop (identifier : Identifier)

/-- A call between two steps. -/
inductive Call where
  /-- `load_tabular` has a token and a location. -/
  | located (catalog : Nat) (identifier : Identifier) (token : Nat) (location : String)
  /-- A token and the metadata to cache with it. -/
  | fetched (catalog : Nat) (identifier : Identifier) (token : Nat) (metadata : TabularMetadata)
  /-- A creation has computed its version: it is written next, or registered. -/
  | creating (catalog : Nat) (identifier : Identifier) (version : TabularVersion)
      (transactionUuid : Uuid)
  /-- The version is written. -/
  | written (catalog : Nat) (identifier : Identifier) (version : TabularVersion)
  /-- The entity is created at the service, with the location of the version. -/
  | created (catalog : Nat) (identifier : Identifier) (version : TabularVersion)
  /-- The entity is created at the service, without a location. -/
  | registered (catalog : Nat) (identifier : Identifier) (version : TabularVersion)
      (transactionUuid : Uuid)
  /-- The token of the created entity is known. -/
  | granted (catalog : Nat) (identifier : Identifier) (version : TabularVersion)
      (transactionUuid : Uuid) (token : Nat)
  /-- The version is written, and its location is given to the entity next. -/
  | binding (catalog : Nat) (identifier : Identifier) (version : TabularVersion) (token : Nat)
  /-- An update has computed its version. -/
  | computed (catalog : Nat) (update : Update)
  /-- The version of an update is written. -/
  | staged (catalog : Nat) (update : Update)
  /-- The service has applied an update. -/
  | committed (catalog : Nat) (update : Update)
  /-- Another location than that of the update has been found with the new token. -/
  | refetching (catalog : Nat) (update : Update) (token : Nat) (location : String)

/-- The update of a request, from the cache entry of an instance. -/
def beginUpdate (locate : TabularMetadata → Uuid → String) (catalog : Nat) (identifier : Identifier)
    (commit : TabularCommit) (transactionUuid : Uuid) (shared : Shared) : Shared × Option Call :=
  if transactionUuid ∈ shared.uuids then (shared, none)
  else match shared.caches catalog identifier with
    | none => (shared, none)
    | some (token, base) =>
      match commit.apply base with
      | .error _ => (shared, none)
      | .ok metadata =>
        (shared.draw transactionUuid,
          some (.computed catalog
            ⟨identifier, token, base, commit, ⟨locate metadata transactionUuid, metadata⟩,
              transactionUuid⟩))

/-- A request up to its first pause. A UUID is never drawn again. -/
def begin (locate : TabularMetadata → Uuid → String) (request : Request) (shared : Shared) :
    Shared × Option Call :=
  match request with
  | .loadTabular catalog identifier =>
    match shared.entities identifier.key with
    | none => (shared, none)
    | some entity =>
      (shared, entity.current.map fun version =>
        .located catalog identifier entity.token version.location)
  | .create catalog identifier metadata transactionUuid =>
    if transactionUuid ∈ shared.uuids then (shared, none)
    else (shared.draw transactionUuid,
      some (.creating catalog identifier
        ⟨metadata.newMetadataLocation transactionUuid, metadata⟩ transactionUuid))
  | .update catalog identifier commit transactionUuid =>
    beginUpdate locate catalog identifier commit transactionUuid shared
  | .drop identifier => (shared.delete identifier.key, none)

/-- `load_tabular` reads the file. -/
def fetch (catalog : Nat) (identifier : Identifier) (token : Nat) (location : String)
    (shared : Shared) : Option Call :=
  match (shared.files location).map TabularFile.fromSlice with
  | some (.ok metadata) => some (.fetched catalog identifier token metadata)
  | _ => none

/-- The service updates an entity if it has the token, and issues a new one. -/
def applyUpdate (key : Key) (token new : Nat) (version : TabularVersion) (update : Option Update)
    (call next : Call) (shared : Shared) : Shared × Option Call :=
  match shared.entities key with
  | none => (shared, none)
  | some entity =>
    if entity.token = token then
      -- the service does not issue a token again
      if shared.hasIssued key new then (shared, some call)
      else (shared.accept key new version update entity.current, some next)
    else (shared, none)

/-- The service creates an entity, unless there is one. -/
def createEntity (key : Key) (token : Nat) (current : Option TabularVersion) (next : Call)
    (shared : Shared) : Shared × Option Call :=
  match shared.entities key with
  | some _ => (shared, none)
  | none => (shared.issue key token current, some next)

abbrev Event := Interleaving.Event Request Nat

end IcebergRust.VersionTokens

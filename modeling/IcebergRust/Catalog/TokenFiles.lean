import IcebergRust.Catalog.TokenSteps

/-!
# The files under version tokens

In every run, of either catalog, what an entity names is stored: a version is written before the
service is told of it, and no file is written twice.
-/

namespace IcebergRust.VersionTokens

open TabularFiles

variable (locate : TabularMetadata → Uuid → String)

/-! ### Invariants -/

/-- The UUID of a call whose version is not written yet. -/
def Call.uuid : Call → Option Uuid
  | .creating _ _ _ transactionUuid => some transactionUuid
  | .registered _ _ _ transactionUuid => some transactionUuid
  | .granted _ _ _ transactionUuid _ => some transactionUuid
  | .computed _ update => some update.transactionUuid
  | _ => none

/-- What holds of the service and the files. -/
structure Filed (shared : Shared) : Prop where
  current : ∀ key entity, shared.entities key = some entity →
    ⟨key, entity.token, entity.current⟩ ∈ shared.issued
  stored : ∀ issued ∈ shared.issued, ∀ version, issued.current = some version →
    Stored locate shared.files version
  drawn : Drawn shared.files shared.uuids

/-- A token the service has issued for what is at a location. -/
def IssuedAt (shared : Shared) (key : Key) (token : Nat) (location : String) : Prop :=
  ∃ version, ⟨key, token, some version⟩ ∈ shared.issued ∧ version.location = location

/-- A version that is going to be written. -/
abbrev Upcoming (shared : Shared) (version : TabularVersion) (transactionUuid : Uuid) : Prop :=
  Pending locate shared.files shared.uuids version transactionUuid

/-- What holds of a call between two steps. -/
def CallFiled (shared : Shared) : Call → Prop
  | .located _ identifier token location => IssuedAt shared identifier.key token location
  | .fetched _ _ _ _ => True
  | .creating _ _ version transactionUuid => Upcoming locate shared version transactionUuid
  | .written _ _ version => Stored locate shared.files version
  | .created _ _ version => Stored locate shared.files version
  | .registered _ _ version transactionUuid => Upcoming locate shared version transactionUuid
  | .granted _ _ version transactionUuid _ => Upcoming locate shared version transactionUuid
  | .binding _ _ version _ => Stored locate shared.files version
  | .computed _ update => Upcoming locate shared update.version update.transactionUuid
  | .staged _ update => Stored locate shared.files update.version
  | .committed _ update => Stored locate shared.files update.version
  | .refetching _ update token location => IssuedAt shared update.identifier.key token location

/-- Calls draw different UUIDs. -/
def Apart (one other : Call) : Prop :=
  ∀ transactionUuid, one.uuid = some transactionUuid → other.uuid ≠ some transactionUuid

/-- What a step adds: files are not overwritten, and nothing issued or drawn is lost. -/
structure Grows (before after : Shared) : Prop where
  files : Kept before.files after.files
  issued : before.issued ⊆ after.issued
  uuids : before.uuids ⊆ after.uuids

theorem Grows.of_same {before after : Shared} (files : after.files = before.files)
    (issued : before.issued ⊆ after.issued) (uuids : after.uuids = before.uuids) :
    Grows before after :=
  ⟨fun _ _ => by rw [files], issued, uuids ▸ List.Subset.refl _⟩

section Effects

variable {locate} {shared before after : Shared}

theorem IssuedAt.grows (grows : Grows before after) {key : Key} {token : Nat} {location : String}
    (at' : IssuedAt before key token location) : IssuedAt after key token location := by
  obtain ⟨version, issued, same⟩ := at'
  exact ⟨version, grows.issued issued, same⟩

/-- What holds of a call keeps holding as long as its own version is left to it. -/
theorem CallFiled.grows {call : Call} (filed : CallFiled locate before call)
    (grows : Grows before after)
    (own : ∀ transactionUuid, call.uuid = some transactionUuid →
      Unwritten before.files transactionUuid → Unwritten after.files transactionUuid) :
    CallFiled locate after call := by
  have pending : ∀ {version transactionUuid}, call.uuid = some transactionUuid →
      Upcoming locate before version transactionUuid →
        Upcoming locate after version transactionUuid := fun mine pending =>
    ⟨grows.uuids pending.drawn, pending.named, own _ mine pending.unwritten⟩
  cases call with
  | located => exact IssuedAt.grows grows filed
  | fetched => trivial
  | creating => exact pending rfl filed
  | written => exact Stored.kept grows.files filed
  | created => exact Stored.kept grows.files filed
  | registered => exact pending rfl filed
  | granted => exact pending rfl filed
  | binding => exact Stored.kept grows.files filed
  | computed => exact pending rfl filed
  | staged => exact Stored.kept grows.files filed
  | committed => exact Stored.kept grows.files filed
  | refetching => exact IssuedAt.grows grows filed

/-! ### What each part of a step keeps -/

theorem grows_draw (transactionUuid : Uuid) : Grows shared (shared.draw transactionUuid) :=
  ⟨Kept.refl _, List.Subset.refl _, List.subset_cons_self _ _⟩

theorem grows_issue (key : Key) (token : Nat) (current : Option TabularVersion) :
    Grows shared (shared.issue key token current) :=
  .of_same rfl (List.subset_cons_self _ _) rfl

theorem Filed.draw (filed : Filed locate shared) (transactionUuid : Uuid) :
    Filed locate (shared.draw transactionUuid) :=
  ⟨filed.current, filed.stored, filed.drawn.mono (List.subset_cons_self _ _)⟩

theorem Filed.delete (filed : Filed locate shared) (key : Key) :
    Filed locate (shared.delete key) where
  current other entity found := by
    by_cases same : other = key
    · subst same
      simp [Shared.delete] at found
    · refine filed.current other entity ?_
      simpa [Shared.delete, Function.update_of_ne same] using found
  stored := filed.stored
  drawn := filed.drawn

/-- What a step does to the caches and the records does not matter to the files. -/
theorem Filed.of_same (filed : Filed locate before) (entities : after.entities = before.entities)
    (files : after.files = before.files) (issued : after.issued = before.issued)
    (uuids : after.uuids = before.uuids) : Filed locate after where
  current key entity found := by
    rw [issued]
    exact filed.current key entity (entities ▸ found)
  stored one member version same := by
    rw [files]
    exact filed.stored one (issued ▸ member) version same
  drawn := by
    rw [files, uuids]
    exact filed.drawn

theorem Filed.issue (filed : Filed locate shared) (key : Key) (token : Nat)
    {current : Option TabularVersion} (stored : ∀ version, current = some version →
      Stored locate shared.files version) : Filed locate (shared.issue key token current) where
  current other entity found := by
    by_cases same : other = key
    · subst same
      have created : entity = ⟨token, current⟩ := by simpa [Shared.issue] using found.symm
      rw [created]
      exact List.mem_cons_self
    · refine List.mem_cons_of_mem _ (filed.current other entity ?_)
      simpa [Shared.issue, Function.update_of_ne same] using found
  stored issued member version same := by
    rcases List.mem_cons.mp member with rfl | old
    · exact stored version same
    · exact filed.stored issued old version same
  drawn := filed.drawn

section Carries

variable (carries : ∀ metadata transactionUuid,
  CarriesUuid (locate metadata transactionUuid) transactionUuid)

include carries

theorem grows_putMetadata {version : TabularVersion} {transactionUuid : Uuid}
    (pending : Upcoming locate shared version transactionUuid) :
    Grows shared (shared.putMetadata version) :=
  ⟨pending.kept carries, List.Subset.refl _, List.Subset.refl _⟩

theorem Filed.putMetadata (filed : Filed locate shared) {version : TabularVersion}
    {transactionUuid : Uuid} (pending : Upcoming locate shared version transactionUuid) :
    Filed locate (shared.putMetadata version) where
  current := filed.current
  stored issued member other same :=
    (filed.stored issued member other same).kept (pending.kept carries)
  drawn := pending.drawn_put carries filed.drawn

end Carries

end Effects

/-! ### Calls -/

section Begins

variable {locate} {shared after : Shared} {call : Option Call}

theorem Begins.grows (begins : Begins locate shared after call) : Grows shared after := by
  cases begins with
  | creating => exact grows_draw _
  | computed => exact grows_draw _
  | _ => exact .of_same rfl (List.Subset.refl _) rfl

theorem Filed.issuedAt (filed : Filed locate shared) {key : Key} {entity : Entity}
    {version : TabularVersion} (found : shared.entities key = some entity)
    (current : entity.current = some version) :
    IssuedAt shared key entity.token version.location := by
  have issued := filed.current key entity found
  rw [current] at issued
  exact ⟨version, issued, rfl⟩

theorem Begins.filed (begins : Begins locate shared after call) (filed : Filed locate shared) :
    Filed locate after ∧ ∀ begun ∈ call, CallFiled locate after begun := by
  cases begins with
  | returned => exact ⟨filed, by simp⟩
  | located catalog identifier entity version found current =>
    refine ⟨filed, fun begun member => ?_⟩
    cases member
    exact filed.issuedAt found current
  | creating catalog identifier version transactionUuid fresh named =>
    refine ⟨filed.draw _, fun begun member => ?_⟩
    cases member
    exact filed.drawn.pending fresh named
  | computed catalog update fresh cached named applied =>
    refine ⟨filed.draw _, fun begun member => ?_⟩
    cases member
    exact filed.drawn.pending fresh named
  | dropped key => exact ⟨filed.delete key, by simp⟩

/-- Beginning a call changes nothing that holds of the others. -/
theorem Begins.others {other : Call} (begins : Begins locate shared after call)
    (there : CallFiled locate shared other) : CallFiled locate after other := by
  refine there.grows begins.grows fun own _ unwritten => ?_
  cases begins <;> exact unwritten

theorem Begins.apart {other : Call} (begins : Begins locate shared after call)
    (drawn : ∀ own, other.uuid = some own → own ∈ shared.uuids) :
    ∀ begun ∈ call, Apart other begun := by
  intro begun member own mine
  cases begins with
  | returned => cases member
  | located =>
    cases member
    simp [Call.uuid]
  | creating catalog identifier version transactionUuid fresh named =>
    cases member
    rintro ⟨rfl⟩
    exact fresh (drawn _ mine)
  | computed catalog update fresh cached named applied =>
    cases member
    rintro ⟨rfl⟩
    exact fresh (drawn _ mine)
  | dropped => cases member

/-- What a call is going to write is drawn. -/
theorem CallFiled.drawn {call : Call} (filed : CallFiled locate shared call)
    {transactionUuid : Uuid} (own : call.uuid = some transactionUuid) :
    transactionUuid ∈ shared.uuids := by
  cases call with
  | creating => cases own; exact Pending.drawn filed
  | registered => cases own; exact Pending.drawn filed
  | granted => cases own; exact Pending.drawn filed
  | computed => cases own; exact Pending.drawn filed
  | _ => cases own

end Begins

section Proceeds

variable {locate} {shared after : Shared} {call : Call} {next : Option Call}
  (carries : ∀ metadata transactionUuid, CarriesUuid (locate metadata transactionUuid)
    transactionUuid)

include carries

theorem Proceeds.grows (proceeds : Proceeds shared call after next)
    (here : CallFiled locate shared call) : Grows shared after := by
  cases proceeds with
  | written => exact grows_putMetadata carries here
  | bound => exact grows_putMetadata carries here
  | staged => exact grows_putMetadata carries here
  | created => exact grows_issue _ _ _
  | registered => exact grows_issue _ _ _
  | first => exact .of_same rfl (List.subset_cons_self _ _) rfl
  | accepted => exact .of_same rfl (List.subset_cons_self _ _) rfl
  | _ => exact .of_same rfl (List.Subset.refl _) rfl

/-- A step keeps what holds of the shared state and of the call itself. -/
theorem Proceeds.filed (proceeds : Proceeds shared call after next) (filed : Filed locate shared)
    (here : CallFiled locate shared call) :
    Filed locate after ∧ ∀ following ∈ next, CallFiled locate after following := by
  have grows := proceeds.grows carries here
  cases proceeds with
  | ended => exact ⟨filed, by simp⟩
  | waits =>
    refine ⟨filed, fun following member => ?_⟩
    cases member
    exact here
  | fetched =>
    refine ⟨filed, fun following member => ?_⟩
    cases member
    trivial
  | cached => exact ⟨filed.of_same rfl rfl rfl rfl, by simp⟩
  | written =>
    refine ⟨filed.putMetadata carries here, fun following member => ?_⟩
    cases member
    exact Pending.stored here
  | bound =>
    refine ⟨filed.putMetadata carries here, fun following member => ?_⟩
    cases member
    exact Pending.stored here
  | staged =>
    refine ⟨filed.putMetadata carries here, fun following member => ?_⟩
    cases member
    exact Pending.stored here
  | created catalog identifier version token =>
    refine ⟨filed.issue _ _ fun other same => Option.some.inj same ▸ here,
      fun following member => ?_⟩
    cases member
    exact Stored.kept grows.files here
  | registered catalog identifier version transactionUuid token =>
    refine ⟨filed.issue _ _ (by simp), fun following member => ?_⟩
    cases member
    exact here
  | reread =>
    refine ⟨filed.of_same rfl rfl rfl rfl, fun following member => ?_⟩
    cases member
    trivial
  | granted =>
    refine ⟨filed.of_same rfl rfl rfl rfl, fun following member => ?_⟩
    cases member
    exact here
  | first catalog identifier version old token entity found current =>
    have issued : Filed locate (shared.issue identifier.key token (some version)) :=
      filed.issue _ _ fun other same => Option.some.inj same ▸ here
    refine ⟨issued.of_same rfl rfl rfl rfl, fun following member => ?_⟩
    cases member
    trivial
  | accepted catalog update token entity following found current answers =>
    have issued : Filed locate (shared.issue update.identifier.key token (some update.version)) :=
      filed.issue _ _ fun other same => Option.some.inj same ▸ here
    refine ⟨issued.of_same rfl rfl rfl rfl, fun other member => ?_⟩
    cases member
    rcases answers with rfl | rfl
    · exact Stored.kept grows.files here
    · trivial
  | kept =>
    refine ⟨filed, fun following member => ?_⟩
    cases member
    trivial
  | other catalog update entity version found current =>
    refine ⟨filed, fun following member => ?_⟩
    cases member
    exact filed.issuedAt found current

/-- A step keeps what holds of the other calls. -/
theorem Proceeds.others {other : Call} (proceeds : Proceeds shared call after next)
    (here : CallFiled locate shared call) (there : CallFiled locate shared other)
    (apart : Apart call other) : CallFiled locate after other := by
  refine there.grows (proceeds.grows carries here) fun own mine unwritten => ?_
  have differs : ∀ {transactionUuid}, call.uuid = some transactionUuid → own ≠ transactionUuid := by
    rintro transactionUuid drawn rfl
    exact apart _ drawn mine
  cases proceeds with
  | written => exact Pending.unwritten_put carries here (differs rfl) unwritten
  | bound => exact Pending.unwritten_put carries here (differs rfl) unwritten
  | staged => exact Pending.unwritten_put carries here (differs rfl) unwritten
  | _ => exact unwritten

omit carries

/-- A call keeps the UUID it has drawn, or uses it up. -/
theorem Proceeds.uuid (proceeds : Proceeds shared call after next) :
    ∀ following ∈ next, ∀ own, following.uuid = some own → call.uuid = some own := by
  intro following member own mine
  cases proceeds with
  | accepted catalog update token entity following found current answers =>
    cases member
    rcases answers with rfl | rfl <;> cases mine
  | _ => cases member <;> first | exact mine | cases mine

end Proceeds

/-! ### Runs -/

section Runs

variable {locate} {system : Interleaving.System Shared Call Request Nat}

theorem keepsFiled
    (carries : ∀ metadata transactionUuid, CarriesUuid (locate metadata transactionUuid)
      transactionUuid)
    (begins : ∀ request shared, Begins locate shared (system.begin request shared).1
      (system.begin request shared).2)
    (proceeds : ∀ token call shared, Proceeds shared call (system.advance token call shared).1
      (system.advance token call shared).2) :
    Interleaving.Keeps system (Filed locate) (CallFiled locate) Apart where
  symm apart own mine same := apart own same mine
  begin request {shared} filed := (begins request shared).filed filed
  beginOther request {shared _} _ there :=
    ⟨(begins request shared).others there, (begins request shared).apart fun _ own => there.drawn own⟩
  advance token {shared call} filed here := (proceeds token call shared).filed carries filed here
  advanceOther token {shared call _} _ here there apart :=
    ⟨(proceeds token call shared).others carries here there apart, fun next member own mine =>
      apart own ((proceeds token call shared).uuid next member own mine)⟩

theorem filed_empty : Filed locate .empty :=
  { current := by simp [Shared.empty]
    stored := by simp [Shared.empty]
    drawn := by simp [Shared.empty, Drawn] }

end Runs

end IcebergRust.VersionTokens

namespace IcebergRust.S3TablesCatalog

theorem carriesUuid (metadata : TabularMetadata) (transactionUuid : Uuid) :
    CarriesUuid (metadataLocation metadata transactionUuid) transactionUuid := by
  have plain (start : String) :
      CarriesUuid (start ++ transactionUuid.display ++ ".metadata.json") transactionUuid := by
    have dotted : ".metadata.json" = "." ++ metadataSuffix false := by decide
    refine ⟨start, false, ?_⟩
    rw [dotted, ← String.append_assoc]
  cases metadata with
  | table metadata => exact TabularMetadata.carriesUuid _ _
  | view metadata => exact plain _
  | materializedView metadata => exact plain _

end IcebergRust.S3TablesCatalog

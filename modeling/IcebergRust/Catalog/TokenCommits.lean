import IcebergRust.Catalog.TokenFiles
import IcebergRust.Spec.LongValue

/-!
# Commits under version tokens

When the token in a cache protects the metadata beside it.

* `Pairs` says that metadata is what was current when a token was issued. A load, an update that
  finds its own location and an update of S3 Tables keep it; a creation only does if nothing has
  come between it and the request for its token.
* `Clean` are the runs where nothing has; in them every accepted update was computed from the
  version it replaced (`tokenCommits_chained`).
-/

namespace IcebergRust.VersionTokens

open TabularFiles

/-! ### The condition -/

/-- The creations of a run have found what they left at the service, and no token was issued for
two entities of one name. -/
structure Clean (shared : Shared) : Prop where
  rereads : ∀ reread ∈ shared.rereads, reread.found = reread.expected
  fresh : (shared.issued.map fun issued => (issued.key, issued.token)).Nodup

/-! ### Invariants -/

/-- The service has issued a token for metadata that is stored. -/
def Pairs (shared : Shared) (key : Key) (token : Nat) (metadata : TabularMetadata) : Prop :=
  ∃ version, ⟨key, token, some version⟩ ∈ shared.issued ∧ version.metadata = metadata

/-- An update was computed from the version it has replaced, and first metadata has replaced
none. -/
def Accepted.OnReplaced (files : TabularFiles) (accepted : Accepted) : Prop :=
  match accepted.update with
  | some update => update.Computed ∧ ∃ version, accepted.replaced = some version ∧
      version.metadata = update.base ∧ Holds files version
  | none => accepted.replaced = none

/-- What holds of the caches and the accepted updates in a clean run. -/
structure Sound (shared : Shared) : Prop where
  caches : ∀ catalog identifier token metadata,
    shared.caches catalog identifier = some (token, metadata) →
      Pairs shared identifier.key token metadata
  accepted : ∀ accepted ∈ shared.accepted, accepted.OnReplaced shared.files

/-- An update that was computed from metadata its token belongs to. -/
def Update.Paired (shared : Shared) (update : Update) : Prop :=
  Pairs shared update.identifier.key update.token update.base ∧ update.Computed

/-- What holds of a call between two steps of a clean run. -/
def CallSound (shared : Shared) : Call → Prop
  | .fetched _ identifier token metadata => Pairs shared identifier.key token metadata
  | .granted _ identifier _ _ token => ⟨identifier.key, token, none⟩ ∈ shared.issued
  | .binding _ identifier _ token => ⟨identifier.key, token, none⟩ ∈ shared.issued
  | .computed _ update => update.Paired shared
  | .staged _ update => update.Paired shared
  | _ => True

section Effects

variable {shared before after : Shared}

theorem Pairs.grows (grows : Grows before after) {key : Key} {token : Nat}
    {metadata : TabularMetadata} (pairs : Pairs before key token metadata) :
    Pairs after key token metadata := by
  obtain ⟨version, issued, same⟩ := pairs
  exact ⟨version, grows.issued issued, same⟩

theorem Accepted.OnReplaced.grows (grows : Grows before after) {accepted : Accepted}
    (replaced : accepted.OnReplaced before.files) : accepted.OnReplaced after.files := by
  unfold OnReplaced at replaced ⊢
  cases computed : accepted.update with
  | none =>
    rw [computed] at replaced
    exact replaced
  | some update =>
    rw [computed] at replaced
    obtain ⟨applied, version, found, same, stored⟩ := replaced
    exact ⟨applied, version, found, same, Holds.kept grows.files stored⟩

theorem Update.Paired.grows (grows : Grows before after) {update : Update}
    (paired : update.Paired before) : update.Paired after :=
  ⟨paired.1.grows grows, paired.2⟩

theorem CallSound.grows {call : Call} (sound : CallSound before call)
    (grows : Grows before after) : CallSound after call := by
  cases call with
  | fetched => exact Pairs.grows grows sound
  | granted => exact grows.issued sound
  | binding => exact grows.issued sound
  | computed => exact Update.Paired.grows grows sound
  | staged => exact Update.Paired.grows grows sound
  | _ => trivial

/-- What a step adds to files and tokens does not matter to caches and accepted updates. -/
theorem Sound.grows (sound : Sound before) (grows : Grows before after)
    (caches : after.caches = before.caches) (accepted : after.accepted = before.accepted) :
    Sound after where
  caches catalog identifier token metadata cached :=
    (sound.caches catalog identifier token metadata (caches ▸ cached)).grows grows
  accepted one member := (sound.accepted one (accepted ▸ member)).grows grows

theorem Sound.cache (sound : Sound shared) {catalog : Nat} {identifier : Identifier} {token : Nat}
    {metadata : TabularMetadata} (pairs : Pairs shared identifier.key token metadata) :
    Sound (shared.cache catalog identifier token metadata) where
  caches other name known content cached := by
    simp only [Shared.cache] at cached
    split at cached
    · rename_i same
      cases cached
      rw [same.2]
      exact pairs
    · exact sound.caches other name known content cached
  accepted := sound.accepted

theorem Sound.accept (sound : Sound shared) {key : Key} {token : Nat} {version : TabularVersion}
    {update : Option Update} {replaced : Option TabularVersion}
    (on : Accepted.OnReplaced shared.files ⟨update, replaced⟩) :
    Sound (shared.accept key token version update replaced) := by
  have issued : Sound (shared.issue key token (some version)) :=
    sound.grows (grows_issue _ _ _) rfl rfl
  refine ⟨issued.caches, fun one member => ?_⟩
  rcases List.mem_cons.mp member with rfl | old
  · exact on
  · exact sound.accepted one old

/-- A token belongs to one version. -/
theorem Clean.token_unique (clean : Clean shared) {key : Key} {token : Nat}
    {one other : Option TabularVersion} (here : ⟨key, token, one⟩ ∈ shared.issued)
    (there : ⟨key, token, other⟩ ∈ shared.issued) : one = other := by
  have same := List.inj_on_of_nodup_map clean.fresh here there rfl
  exact congrArg Issued.current same

end Effects

section Steps

variable {locate : TabularMetadata → Uuid → String} {shared after : Shared}

/-- The current token belongs to metadata that is stored where the service says. -/
theorem Filed.pairs (filed : Filed locate shared) {key : Key} {entity : Entity}
    {version own : TabularVersion} (found : shared.entities key = some entity)
    (current : entity.current = some version) (holds : Holds shared.files own)
    (same : version.location = own.location) : Pairs shared key entity.token own.metadata := by
  have issued := filed.current key entity found
  rw [current] at issued
  exact ⟨version, issued, (filed.stored _ issued version rfl).holds.metadata_eq holds same⟩

/-- The metadata of an update that has the current token is what is current. -/
theorem Filed.replaces (filed : Filed locate shared) (clean : Clean shared) {key : Key}
    {entity : Entity} {update : Update} (found : shared.entities key = some entity)
    (pairs : Pairs shared key entity.token update.base) (applied : update.Computed) :
    Accepted.OnReplaced shared.files ⟨some update, entity.current⟩ := by
  obtain ⟨version, issued, same⟩ := pairs
  have current : entity.current = some version :=
    clean.token_unique (filed.current key entity found) issued
  exact ⟨applied, version, current, same, (filed.stored _ issued version rfl).holds⟩

theorem Begins.clean {call : Option Call} (begins : Begins locate shared after call)
    (clean : Clean after) : Clean shared := by
  cases begins <;> exact ⟨clean.rereads, clean.fresh⟩

theorem Begins.sound {call : Option Call} (begins : Begins locate shared after call)
    (sound : Sound shared) : Sound after ∧ ∀ begun ∈ call, CallSound after begun := by
  have grows := begins.grows
  cases begins with
  | returned => exact ⟨sound, by simp⟩
  | located =>
    refine ⟨sound, fun begun member => ?_⟩
    cases member
    trivial
  | creating =>
    refine ⟨sound.grows grows rfl rfl, fun begun member => ?_⟩
    cases member
    trivial
  | computed catalog update fresh cached named applied =>
    refine ⟨sound.grows grows rfl rfl, fun begun member => ?_⟩
    cases member
    exact ⟨(sound.caches _ _ _ _ cached).grows grows, applied⟩
  | dropped => exact ⟨sound.grows grows rfl rfl, by simp⟩

variable {call : Call} {next : Option Call}

theorem Proceeds.clean (proceeds : Proceeds shared call after next) (clean : Clean after) :
    Clean shared := by
  have older : ∀ {key token current},
      Clean (shared.issue key token current) → Clean shared := fun clean =>
    ⟨clean.rereads, (List.nodup_cons.mp clean.fresh).2⟩
  cases proceeds with
  | created => exact older clean
  | registered => exact older clean
  | first => exact older ⟨clean.rereads, clean.fresh⟩
  | accepted => exact older ⟨clean.rereads, clean.fresh⟩
  | reread =>
    exact ⟨fun reread member => clean.rereads reread (List.mem_cons_of_mem _ member), clean.fresh⟩
  | granted =>
    exact ⟨fun reread member => clean.rereads reread (List.mem_cons_of_mem _ member), clean.fresh⟩
  | _ => exact ⟨clean.rereads, clean.fresh⟩

/-- A step keeps what holds of the shared state and of the call itself. -/
theorem Proceeds.sound (proceeds : Proceeds shared call after next) (clean : Clean after)
    (grows : Grows shared after) (filed : Filed locate shared)
    (here : CallFiled locate shared call) (sound : Sound shared) (paired : CallSound shared call) :
    Sound after ∧ ∀ following ∈ next, CallSound after following := by
  have before := proceeds.clean clean
  cases proceeds with
  | ended => exact ⟨sound, by simp⟩
  | waits =>
    refine ⟨sound, fun following member => ?_⟩
    cases member
    exact paired
  | fetched _ catalog identifier token location metadata file reads found read =>
    have known : IssuedAt shared identifier.key token location := by
      rcases reads with rfl | ⟨update, rfl, rfl⟩ <;> exact here
    obtain ⟨version, issued, rfl⟩ := known
    refine ⟨sound, fun following member => ?_⟩
    cases member
    have stored := (filed.stored _ issued version rfl).holds
    rw [Holds, found] at stored
    refine ⟨version, issued, ?_⟩
    rw [← read, Option.some.inj stored]
    rfl
  | cached catalog identifier token metadata => exact ⟨sound.cache paired, by simp⟩
  | written =>
    refine ⟨sound.grows grows rfl rfl, fun following member => ?_⟩
    cases member
    trivial
  | bound =>
    refine ⟨sound.grows grows rfl rfl, fun following member => ?_⟩
    cases member
    exact grows.issued paired
  | staged =>
    refine ⟨sound.grows grows rfl rfl, fun following member => ?_⟩
    cases member
    exact Update.Paired.grows grows paired
  | created =>
    refine ⟨sound.grows grows rfl rfl, fun following member => ?_⟩
    cases member
    trivial
  | registered =>
    refine ⟨sound.grows grows rfl rfl, fun following member => ?_⟩
    cases member
    trivial
  | reread catalog identifier version entity found =>
    have own : entity.current.map (·.location) = some version.location :=
      clean.rereads _ List.mem_cons_self
    obtain ⟨other, current, same⟩ := Option.map_eq_some_iff.mp own
    refine ⟨sound.grows grows rfl rfl, fun following member => ?_⟩
    cases member
    exact (filed.pairs found current (Stored.holds here) same).grows grows
  | granted catalog identifier version transactionUuid entity found =>
    have nothing : entity.current.map (·.location) = none := clean.rereads _ List.mem_cons_self
    have issued := filed.current _ entity found
    rw [Option.map_eq_none_iff.mp nothing] at issued
    refine ⟨sound.grows grows rfl rfl, fun following member => ?_⟩
    cases member
    exact grows.issued issued
  | first catalog identifier version old token entity found current =>
    subst current
    have nothing : entity.current = none :=
      before.token_unique (filed.current _ entity found) paired
    refine ⟨sound.accept nothing, fun following member => ?_⟩
    cases member
    exact ⟨version, List.mem_cons_self, rfl⟩
  | accepted catalog update token entity following found current answers =>
    obtain ⟨pairs, applied⟩ := paired
    rw [← current] at pairs
    refine ⟨sound.accept (filed.replaces before found pairs applied), fun other member => ?_⟩
    cases member
    rcases answers with rfl | rfl
    · trivial
    · exact ⟨update.version, List.mem_cons_self, rfl⟩
  | kept catalog update entity version found current same =>
    refine ⟨sound, fun following member => ?_⟩
    cases member
    exact filed.pairs found current (Stored.holds here) same
  | other =>
    refine ⟨sound, fun following member => ?_⟩
    cases member
    trivial

end Steps

/-! ### Runs -/

variable {locate : TabularMetadata → Uuid → String}
  {system : Interleaving.System Shared Call Request Nat}

/-- The invariant of clean runs. -/
theorem keeps (carries : ∀ metadata transactionUuid, CarriesUuid (locate metadata transactionUuid)
      transactionUuid)
    (begins : ∀ request shared, Begins locate shared (system.begin request shared).1
      (system.begin request shared).2)
    (proceeds : ∀ token call shared, Proceeds shared call (system.advance token call shared).1
      (system.advance token call shared).2) :
    Interleaving.Keeps system (fun shared => Filed locate shared ∧ (Clean shared → Sound shared))
      (fun shared call => CallFiled locate shared call ∧ (Clean shared → CallSound shared call))
      Apart := by
  refine (keepsFiled carries begins proceeds).and ?_ ?_ ?_ ?_
  · intro request shared filed sound
    have begins := begins request shared
    exact ⟨fun clean => (begins.sound (sound (begins.clean clean))).1, fun call member clean =>
      (begins.sound (sound (begins.clean clean))).2 call member⟩
  · intro request shared other filed sound _ there clean
    have begins := begins request shared
    exact (there (begins.clean clean)).grows begins.grows
  · intro token shared call filed sound here paired
    have proceeds := proceeds token call shared
    have whole := fun clean : Clean (system.advance token call shared).1 =>
      proceeds.sound clean (proceeds.grows carries here) filed here (sound (proceeds.clean clean))
        (paired (proceeds.clean clean))
    exact ⟨fun clean => (whole clean).1, fun next member clean => (whole clean).2 next member⟩
  · intro token shared call other filed sound here paired _ there _ clean
    have proceeds := proceeds token call shared
    exact (there (proceeds.clean clean)).grows (proceeds.grows carries here)

theorem holds_run
    (carries : ∀ metadata transactionUuid, CarriesUuid (locate metadata transactionUuid)
      transactionUuid)
    (begins : ∀ request shared, Begins locate shared (system.begin request shared).1
      (system.begin request shared).2)
    (proceeds : ∀ token call shared, Proceeds shared call (system.advance token call shared).1
      (system.advance token call shared).2) (events : List Event) :
    Filed locate (Interleaving.run system ⟨.empty, []⟩ events).shared ∧
      (Clean (Interleaving.run system ⟨.empty, []⟩ events).shared →
        Sound (Interleaving.run system ⟨.empty, []⟩ events).shared) := by
  have empty : Sound .empty :=
    { caches := by simp [Shared.empty]
      accepted := by simp [Shared.empty] }
  refine (Interleaving.holds_run (keeps carries begins proceeds)
    ⟨⟨filed_empty, fun _ => empty⟩, ?_, .nil⟩ events).shared
  exact fun call member => absurd member List.not_mem_nil

end IcebergRust.VersionTokens

namespace IcebergRust

open VersionTokens GlueCatalog S3TablesCatalog

theorem GlueCatalog.holds_run (events : List VersionTokens.Event) :
    Filed TabularMetadata.newMetadataLocation (runGlue events).shared ∧
      (Clean (runGlue events).shared → Sound (runGlue events).shared) :=
  VersionTokens.holds_run TabularMetadata.carriesUuid (begin_begins _)
    GlueCatalog.advance_proceeds events

theorem S3TablesCatalog.holds_run (events : List VersionTokens.Event) :
    Filed metadataLocation (runS3Tables events).shared ∧
      (Clean (runS3Tables events).shared → Sound (runS3Tables events).shared) :=
  VersionTokens.holds_run S3TablesCatalog.carriesUuid (begin_begins _)
    S3TablesCatalog.advance_proceeds events

/-- The accepted updates form one chain: each was computed from the version it has replaced. -/
def VersionTokens.Chained (shared : Shared) : Prop :=
  ∀ accepted ∈ shared.accepted, accepted.OnReplaced shared.files

/-- In every clean run of any number of instances, of either catalog, each accepted update was
computed from the version it replaced. -/
theorem tokenCommits_chained (events : List VersionTokens.Event) :
    (Clean (runGlue events).shared → Chained (runGlue events).shared) ∧
      (Clean (runS3Tables events).shared → Chained (runS3Tables events).shared) :=
  ⟨fun clean => ((GlueCatalog.holds_run events).2 clean).accepted,
    fun clean => ((S3TablesCatalog.holds_run events).2 clean).accepted⟩

/-! ### A creation that is overtaken -/

section Decidable

instance (shared : Shared) : Decidable (Clean shared) :=
  decidable_of_iff ((∀ reread ∈ shared.rereads, reread.found = reread.expected) ∧
    (shared.issued.map fun issued => (issued.key, issued.token)).Nodup)
    ⟨fun ⟨rereads, fresh⟩ => ⟨rereads, fresh⟩, fun ⟨rereads, fresh⟩ => ⟨rereads, fresh⟩⟩

end Decidable

def orders : Identifier := ⟨⟨["sales"]⟩, "orders"⟩

def setOwner (owner : String) : TabularCommit :=
  .table ⟨[], [.setProperties (AList.singleton "owner" owner)]⟩ 1

/-- One instance creates a table, another loads and updates it, and the first one updates it. -/
def createUpdate : List VersionTokens.Event :=
  [.call (.create 0 orders (.table (longTable .v2)) ⟨1⟩), .advance 0 0, .advance 0 0, .advance 0 0,
    .advance 0 1, .advance 0 1,
    .call (.loadTabular 1 orders), .advance 0 0, .advance 0 0,
    .call (.update 1 orders (setOwner "ada") ⟨2⟩), .advance 0 0, .advance 0 2, .advance 0 0,
    .advance 0 0]

/-- Both catalogs go through it step by step. -/
theorem tokenCommits_chained_createUpdate :
    Chained (runGlue createUpdate).shared ∧ Chained (runS3Tables createUpdate).shared :=
  ⟨(tokenCommits_chained createUpdate).1 (by decide +kernel),
    (tokenCommits_chained createUpdate).2 (by decide +kernel)⟩

/-- The table is updated by another instance between the creation at the service and the request
for its token. -/
def overtaken : List VersionTokens.Event :=
  [.call (.create 0 orders (.table (longTable .v2)) ⟨1⟩), .advance 0 0, .advance 0 0,
    .call (.loadTabular 1 orders), .advance 1 0, .advance 1 0,
    .call (.update 1 orders (setOwner "ada") ⟨2⟩), .advance 1 0, .advance 1 1,
    .advance 0 0, .advance 0 0,
    .call (.update 0 orders (setOwner "eve") ⟨3⟩), .advance 1 0, .advance 1 2]

theorem overtaken_not_chained : ¬ Chained (runGlue overtaken).shared := by
  intro chained
  have bypassed : ∃ accepted ∈ (runGlue overtaken).shared.accepted,
      ∃ update ∈ accepted.update, ∃ version ∈ accepted.replaced,
        update.base.properties.lookup "owner" ≠ version.metadata.properties.lookup "owner" := by
    decide +kernel
  obtain ⟨accepted, member, update, computed, version, replaced, differ⟩ := bypassed
  have onReplaced := chained accepted member
  rw [Accepted.OnReplaced, computed] at onReplaced
  obtain ⟨-, other, found, same, -⟩ := onReplaced
  rw [replaced] at found
  cases found
  exact differ (congrArg (fun metadata => metadata.properties.lookup "owner") same.symm)

end IcebergRust

import IcebergRust.Catalog.Effect
import IcebergRust.Catalog.SqlCatalog
import IcebergRust.Spec.LongValue
import Mathlib.Data.List.DropRight

/-!
# Commits of the SQL catalog

What the accepted updates of a table satisfy in every run of any number of instances.

* `Chained`: each update was computed from the version it supersedes.
* `loggedCount` is how many superseded locations the metadata log holds: one more with each
  commit, but no more than the limit that commit leaves in the properties.
* The location of a version is drawn with a UUID of its own, so the conditional update
  matches only where the cached version is still the latest.
-/

namespace IcebergRust.SqlCatalog

open Fallible TableTransaction

/-- The committed versions, newest first. -/
def versions (initial : Version) (accepted : List Update) : List Version :=
  accepted.map (·.version) ++ [initial]

/-- The version committed last. -/
def latest (initial : Version) : List Update → Version
  | [] => initial
  | update :: _ => update.version

/-- Each update was computed from the version before it. -/
def Chained (initial : Version) : List Update → Prop
  | [] => True
  | update :: past =>
    update.previous = latest initial past ∧
      commitMetadata update.previous update.commit update.now =
        .ok (update.metadata, update.expiredMetadataFiles) ∧
      Chained initial past

/-- The superseded locations in commit order. -/
def superseded (accepted : List Update) : List String :=
  accepted.reverse.map (·.previous.location)

/-- The files of the metadata log. -/
def logFiles (metadata : TableMetadata) : List String := metadata.metadataLog.map (·.metadataFile)

/-- How many of them the metadata log holds. -/
def loggedCount : List Update → Nat
  | [] => 0
  | update :: past => min (loggedCount past + 1) (previousVersionsMax update.metadata)

theorem latest_mem_versions (initial : Version) (accepted : List Update) :
    latest initial accepted ∈ versions initial accepted := by
  cases accepted with
  | nil => exact List.mem_singleton_self _
  | cons update past => exact List.mem_cons_self

theorem versions_cons (initial : Version) (update : Update) (past : List Update) :
    versions initial (update :: past) = update.version :: versions initial past := rfl

theorem superseded_cons (update : Update) (past : List Update) :
    superseded (update :: past) = superseded past ++ [update.previous.location] := by
  simp [superseded]

/-! ### The metadata log -/

variable {metadata : TableMetadata} {initial : Version} {accepted : List Update}

/-- What `supersede` cuts off and what it leaves is the log with the superseded location. -/
theorem supersede_spec {previous : Version} {after : TableMetadata} {expired : List String}
    (cut : supersede previous metadata = (after, expired)) :
    previousVersionsMax after = previousVersionsMax metadata ∧
      expired ++ logFiles after = logFiles metadata ++ [previous.location] ∧
      logFiles after = (logFiles metadata ++ [previous.location]).rtake
        (min (metadata.metadataLog.length + 1) (previousVersionsMax metadata)) := by
  simp only [supersede] at cut
  split at cut
  · rename_i long
    obtain ⟨rfl, rfl⟩ := Prod.mk.inj cut
    refine ⟨rfl, ?_, ?_⟩
    · simp only [logFiles]
      rw [← List.map_append, List.take_append_drop]
      simp
    · simp only [logFiles, List.rtake, List.map_drop, List.map_append, List.map_cons, List.map_nil]
      congr 1
      simp only [List.length_append, List.length_map, List.length_singleton] at long ⊢
      omega
  · rename_i short
    obtain ⟨rfl, rfl⟩ := Prod.mk.inj cut
    refine ⟨rfl, by simp [logFiles], ?_⟩
    rw [List.length_append, List.length_singleton] at short
    rw [min_eq_left (by omega)]
    simp [logFiles, List.rtake]

theorem applyTableUpdates_metadataLog {after : TableMetadata} {updates : List TableUpdate}
    {now : Int} (run : applyTableUpdates metadata updates now = .ok after) :
    after.metadataLog = metadata.metadataLog := by
  obtain ⟨state, kept, same⟩ := applyTableUpdates_prefix
    (fun _ state => state.metadata.metadataLog = metadata.metadataLog)
    (fun _ _ _ _ here applied => by cases applied <;> exact here) run rfl
  rw [same, ← kept]

theorem commitMetadata_spec {previous : Version} {commit : CommitTable} {now : Int}
    {expired : List String}
    (computed : commitMetadata previous commit now = .ok (metadata, expired)) :
    expired ++ logFiles metadata = logFiles previous.metadata ++ [previous.location] ∧
      logFiles metadata = (logFiles previous.metadata ++ [previous.location]).rtake
        (min ((logFiles previous.metadata).length + 1) (previousVersionsMax metadata)) := by
  simp only [commitMetadata] at computed
  split at computed
  · obtain ⟨applied, run, cut⟩ := bind_eq_ok.mp computed
    obtain ⟨limit, all, log⟩ := supersede_spec (Except.ok.inj cut)
    have kept : logFiles applied = logFiles previous.metadata := by
      rw [logFiles, applyTableUpdates_metadataLog run, logFiles]
    rw [← kept, limit]
    exact ⟨all, by rw [log]; simp [logFiles]⟩
  · cases computed

theorem rtake_append_rtake (files : List String) (file : String) {n m : Nat} (below : m ≤ n + 1) :
    (files.rtake n ++ [file]).rtake m = (files ++ [file]).rtake m := by
  simp only [List.rtake, List.length_append, List.length_drop, List.length_singleton]
  rcases Nat.lt_or_ge files.length n with short | long
  · rw [Nat.sub_eq_zero_of_le (Nat.le_of_lt short), List.drop_zero, Nat.sub_zero]
  · cases m with
    | zero => simp
    | succ m =>
      rw [List.drop_append_of_le_length (by rw [List.length_drop]; omega),
        List.drop_append_of_le_length (by omega), List.drop_drop]
      congr 2
      omega

theorem loggedCount_le (accepted : List Update) : loggedCount accepted ≤ accepted.length := by
  induction accepted with
  | nil => exact le_refl _
  | cons update past ih => exact (min_le_left _ _).trans (Nat.succ_le_succ ih)

/-- The metadata log of a chain is the last `loggedCount` superseded locations. -/
theorem Chained.log (chained : Chained initial accepted) (empty : initial.metadata.metadataLog = []) :
    logFiles (latest initial accepted).metadata =
      (superseded accepted).rtake (loggedCount accepted) := by
  induction accepted with
  | nil => simp [latest, logFiles, empty, superseded]
  | cons update past ih =>
    obtain ⟨previous, computed, before⟩ := chained
    have log := ih before
    have count : ((superseded past).rtake (loggedCount past)).length = loggedCount past := by
      have enough := loggedCount_le past
      simp only [List.rtake, List.length_drop, superseded, List.length_map, List.length_reverse]
      omega
    show logFiles update.metadata = _
    rw [(commitMetadata_spec computed).2, previous, log, count, superseded_cons, previous]
    exact rtake_append_rtake _ _ (min_le_left _ _)

/-- Where no commit raises the limit, the log is full. -/
theorem loggedCount_eq_min (initial : Version)
    (falling : (accepted.map fun update => previousVersionsMax update.metadata).Pairwise (· ≤ ·)) :
    loggedCount accepted =
      min accepted.length (previousVersionsMax (latest initial accepted).metadata) := by
  induction accepted with
  | nil => exact (Nat.zero_min _).symm
  | cons update past ih =>
    rw [List.map_cons, List.pairwise_cons] at falling
    obtain ⟨lower, rest⟩ := falling
    have before := ih rest
    show min (loggedCount past + 1) _ = min (past.length + 1) (previousVersionsMax update.metadata)
    cases past with
    | nil => rfl
    | cons last past =>
      have step : previousVersionsMax update.metadata ≤ previousVersionsMax last.metadata :=
        lower _ List.mem_cons_self
      rw [before]
      simp only [latest, Update.version]
      omega

/-- The superseded locations and the latest one are the locations of all versions. -/
theorem Chained.superseded (chained : Chained initial accepted) :
    superseded accepted ++ [(latest initial accepted).location] =
      ((versions initial accepted).map (·.location)).reverse := by
  induction accepted with
  | nil => rfl
  | cons update past ih =>
    obtain ⟨previous, -, before⟩ := chained
    rw [superseded_cons, previous, ih before, versions_cons, List.map_cons, List.reverse_cons]
    rfl

/-! ### Invariants -/

/-- A location that is neither the current one nor in the current metadata log. -/
structure Expired (initial : Version) (accepted : List Update) (location : String) : Prop where
  current : location ≠ (latest initial accepted).location
  log : location ∉ logFiles (latest initial accepted).metadata

/-- A committed version is stored, or has expired. -/
def Stored (initial : Version) (shared : Shared) (version : Version) : Prop :=
  shared.files version.location = some (serializeMetadata version.location version.metadata) ∨
    shared.files version.location = none ∧ Expired initial shared.accepted version.location

/-- What holds of the row, the files and the caches in every run. -/
structure Sound (initial : Version) (shared : Shared) : Prop where
  chained : Chained initial shared.accepted
  row : shared.row.metadataLocation = (latest initial shared.accepted).location
  drawn : ∀ version ∈ versions initial shared.accepted, ∃ uuid ∈ shared.uuids,
    version.location = newMetadataLocation version.metadata uuid
  apart : ((versions initial shared.accepted).map (·.location)).Nodup
  caches : ∀ catalog version, shared.caches catalog = some version →
    version ∈ versions initial shared.accepted
  files : ∀ version ∈ versions initial shared.accepted, Stored initial shared version

/-- An update that has been computed from a committed version and is not committed itself. -/
structure Pending (initial : Version) (shared : Shared) (update : Update) : Prop where
  previous : update.previous ∈ versions initial shared.accepted
  computed : commitMetadata update.previous update.commit update.now =
    .ok (update.metadata, update.expiredMetadataFiles)
  drawn : update.transactionUuid ∈ shared.uuids
  apart : ∀ version ∈ versions initial shared.accepted, update.version.location ≠ version.location

/-- What holds of a call between two steps. -/
def CallSound (initial : Version) (shared : Shared) : Call → Prop
  | .selected _ location => ∃ version ∈ versions initial shared.accepted, version.location = location
  | .fetched _ version => version ∈ versions initial shared.accepted
  | .prepared _ update => Pending initial shared update
  | .written _ update => Pending initial shared update ∧
    shared.files update.version.location =
      some (serializeMetadata update.version.location update.version.metadata)
  | .lost _ => True
  | .swapped _ update expired => update.version ∈ versions initial shared.accepted ∧
    ∀ location ∈ expired, Expired initial shared.accepted location ∧
      ∃ version ∈ versions initial shared.accepted, version.location = location

/-- The UUID of an update that is not committed yet. -/
def Call.uuid : Call → Option Uuid
  | .prepared _ update => some update.transactionUuid
  | .written _ update => some update.transactionUuid
  | _ => none

/-- Calls draw different UUIDs. -/
def Apart (one other : Call) : Prop :=
  ∀ uuid, one.uuid = some uuid → other.uuid ≠ some uuid

section Steps

variable {initial : Version} {shared : Shared}

theorem versions_inj (sound : Sound initial shared) {one other : Version}
    (first : one ∈ versions initial shared.accepted)
    (second : other ∈ versions initial shared.accepted) (same : one.location = other.location) :
    one = other :=
  List.inj_on_of_nodup_map sound.apart first second same

/-! #### A file is written -/

theorem Sound.putMetadata (sound : Sound initial shared) {version : Version}
    (fresh : ∀ known ∈ versions initial shared.accepted, version.location ≠ known.location) :
    Sound initial (shared.putMetadata version) where
  chained := sound.chained
  row := sound.row
  drawn := sound.drawn
  apart := sound.apart
  caches := sound.caches
  files known member := by
    have other := (fresh known member).symm
    simpa [Stored, Shared.putMetadata, Function.update_of_ne other] using sound.files known member

variable {call : Call} {update : Update}

theorem CallSound.putMetadata (here : CallSound initial shared call) {version : Version}
    (other : ∀ catalog update, call = .written catalog update →
      update.version.location ≠ version.location) :
    CallSound initial (shared.putMetadata version) call := by
  cases call with
  | prepared catalog update => exact ⟨here.previous, here.computed, here.drawn, here.apart⟩
  | written catalog update =>
    obtain ⟨⟨previous, computed, drawn, apart⟩, stored⟩ := here
    refine ⟨⟨previous, computed, drawn, apart⟩, ?_⟩
    simpa [Shared.putMetadata, Function.update_of_ne (other catalog update rfl)] using stored
  | _ => exact here

/-! #### A file is deleted -/

theorem Sound.delete (sound : Sound initial shared) {location : String}
    (expired : Expired initial shared.accepted location) : Sound initial (shared.delete location) where
  chained := sound.chained
  row := sound.row
  drawn := sound.drawn
  apart := sound.apart
  caches := sound.caches
  files version member := by
    by_cases same : version.location = location
    · exact .inr ⟨by simp [Shared.delete, same], same ▸ expired⟩
    · simpa [Stored, Shared.delete, Function.update_of_ne same] using sound.files version member

theorem CallSound.delete (here : CallSound initial shared call) {location : String}
    (known : ∃ version ∈ versions initial shared.accepted, version.location = location) :
    CallSound initial (shared.delete location) call := by
  cases call with
  | prepared catalog update => exact ⟨here.previous, here.computed, here.drawn, here.apart⟩
  | written catalog update =>
    obtain ⟨⟨previous, computed, drawn, apart⟩, stored⟩ := here
    obtain ⟨version, member, rfl⟩ := known
    refine ⟨⟨previous, computed, drawn, apart⟩, ?_⟩
    simpa [Shared.delete, Function.update_of_ne (apart version member)] using stored
  | _ => exact here

/-! #### A cache is filled or cleared -/

theorem Sound.cache (sound : Sound initial shared) (catalog : Nat) {entry : Option Version}
    (known : ∀ version ∈ entry, version ∈ versions initial shared.accepted) :
    Sound initial (shared.cache catalog entry) where
  chained := sound.chained
  row := sound.row
  drawn := sound.drawn
  apart := sound.apart
  caches other version cached := by
    by_cases same : other = catalog
    · subst same
      exact known version (by simpa [Shared.cache] using cached)
    · exact sound.caches other version (by simpa [Shared.cache, same] using cached)
  files := sound.files

theorem CallSound.cache (here : CallSound initial shared call) (catalog : Nat)
    (entry : Option Version) : CallSound initial (shared.cache catalog entry) call := by
  cases call with
  | prepared catalog update => exact ⟨here.previous, here.computed, here.drawn, here.apart⟩
  | written catalog update =>
    exact ⟨⟨here.1.previous, here.1.computed, here.1.drawn, here.1.apart⟩, here.2⟩
  | _ => exact here

/-! #### The row is swapped -/

/-- An update whose previous location is in the row was computed from the latest version. -/
theorem Pending.previous_eq (sound : Sound initial shared) (pending : Pending initial shared update)
    (matched : shared.row.metadataLocation = update.previous.location) :
    update.previous = latest initial shared.accepted :=
  versions_inj sound pending.previous (latest_mem_versions _ _) (matched.symm.trans sound.row)

/-- The locations in the log of an update and those that expire with it are different locations
of committed versions. -/
theorem Pending.locations (sound : Sound initial shared) (empty : initial.metadata.metadataLog = [])
    (pending : Pending initial shared update)
    (matched : shared.row.metadataLocation = update.previous.location) :
    (update.expiredMetadataFiles ++ logFiles update.metadata).Nodup ∧
      ∀ location ∈ update.expiredMetadataFiles ++ logFiles update.metadata,
        ∃ version ∈ versions initial shared.accepted, version.location = location := by
  have previous := pending.previous_eq sound matched
  have sub : (update.expiredMetadataFiles ++ logFiles update.metadata).Sublist
      ((versions initial shared.accepted).map (·.location)).reverse := by
    rw [(commitMetadata_spec pending.computed).1, previous, sound.chained.log empty,
      ← sound.chained.superseded]
    exact (List.drop_sublist _ _).append (List.Sublist.refl _)
  refine ⟨(List.nodup_reverse.mpr sound.apart).sublist sub, fun location member => ?_⟩
  exact List.mem_map.mp (List.mem_reverse.mp (sub.subset member))

/-- What has expired stays so. -/
theorem Expired.swap (sound : Sound initial shared) (pending : Pending initial shared update)
    (matched : shared.row.metadataLocation = update.previous.location) {location : String}
    (expired : Expired initial shared.accepted location)
    (known : ∃ version ∈ versions initial shared.accepted, version.location = location) :
    Expired initial (update :: shared.accepted) location := by
  obtain ⟨version, member, rfl⟩ := known
  refine ⟨(pending.apart version member).symm, fun logged => ?_⟩
  have either : version.location ∈ logFiles update.previous.metadata ++ [update.previous.location] := by
    rw [← (commitMetadata_spec pending.computed).1]
    exact List.mem_append_right _ logged
  rw [pending.previous_eq sound matched] at either
  rcases List.mem_append.mp either with log | last
  · exact expired.log log
  · exact expired.current (List.mem_singleton.mp last)

theorem Sound.swap (sound : Sound initial shared) (pending : Pending initial shared update)
    (stored : shared.files update.version.location =
      some (serializeMetadata update.version.location update.version.metadata))
    (matched : shared.row.metadataLocation = update.previous.location) :
    Sound initial (shared.swapMetadataLocation update) where
  chained := ⟨pending.previous_eq sound matched, pending.computed, sound.chained⟩
  row := rfl
  drawn version member := by
    rcases List.mem_cons.mp member with rfl | old
    · exact ⟨_, pending.drawn, rfl⟩
    · exact sound.drawn version old
  apart := by
    refine List.nodup_cons.mpr ⟨fun member => ?_, sound.apart⟩
    obtain ⟨version, known, same⟩ := List.mem_map.mp member
    exact pending.apart version known same.symm
  caches catalog version cached := List.mem_cons_of_mem _ (sound.caches catalog version cached)
  files version member := by
    rcases List.mem_cons.mp member with rfl | old
    · exact .inl stored
    · rcases sound.files version old with here | ⟨gone, expired⟩
      · exact .inl here
      · exact .inr ⟨gone, expired.swap sound pending matched ⟨version, old, rfl⟩⟩

theorem Pending.swap {other : Update} (here : Pending initial shared other)
    (drawn : other.transactionUuid ≠ update.transactionUuid) :
    Pending initial (shared.swapMetadataLocation update) other where
  previous := List.mem_cons_of_mem _ here.previous
  computed := here.computed
  drawn := here.drawn
  apart version member := by
    rcases List.mem_cons.mp member with rfl | old
    · exact fun same => drawn (newMetadataLocation_inj same)
    · exact here.apart version old

theorem CallSound.swap (sound : Sound initial shared) (here : CallSound initial shared call)
    (pending : Pending initial shared update)
    (matched : shared.row.metadataLocation = update.previous.location)
    (drawn : call.uuid ≠ some update.transactionUuid) :
    CallSound initial (shared.swapMetadataLocation update) call := by
  cases call with
  | selected catalog location =>
    obtain ⟨version, known, same⟩ := here
    exact ⟨version, List.mem_cons_of_mem _ known, same⟩
  | fetched catalog version => exact List.mem_cons_of_mem _ here
  | prepared catalog other => exact Pending.swap here fun same => drawn (congrArg some same)
  | written catalog other =>
    exact ⟨Pending.swap here.1 fun same => drawn (congrArg some same), here.2⟩
  | lost catalog => trivial
  | swapped catalog other expired =>
    refine ⟨List.mem_cons_of_mem _ here.1, fun location member => ?_⟩
    obtain ⟨gone, version, known, same⟩ := here.2 location member
    exact ⟨gone.swap sound pending matched ⟨version, known, same⟩,
      version, List.mem_cons_of_mem _ known, same⟩

/-- What an accepted update deletes has expired with it. -/
theorem Pending.deletes (sound : Sound initial shared) (empty : initial.metadata.metadataLog = [])
    (pending : Pending initial shared update)
    (matched : shared.row.metadataLocation = update.previous.location) :
    ∀ location ∈ update.deletes, Expired initial (update :: shared.accepted) location ∧
      ∃ version ∈ versions initial (update :: shared.accepted), version.location = location := by
  intro location member
  obtain ⟨different, known⟩ := pending.locations sound empty matched
  have expired : location ∈ update.expiredMetadataFiles := by
    unfold Update.deletes at member
    split at member
    · exact member
    · cases member
  obtain ⟨version, old, rfl⟩ := known location (List.mem_append_left _ expired)
  refine ⟨⟨(pending.apart version old).symm, fun logged => ?_⟩,
    version, List.mem_cons_of_mem _ old, rfl⟩
  exact (List.nodup_append.mp different).2.2 _ expired _ logged rfl

/-! #### One step -/

/-- Drawing a UUID changes nothing that has been established. -/
theorem Sound.draw (sound : Sound initial shared) (uuid : Uuid) :
    Sound initial { shared with uuids := uuid :: shared.uuids } where
  chained := sound.chained
  row := sound.row
  drawn version member := by
    obtain ⟨known, drawn, same⟩ := sound.drawn version member
    exact ⟨known, List.mem_cons_of_mem _ drawn, same⟩
  apart := sound.apart
  caches := sound.caches
  files := sound.files

theorem CallSound.draw (here : CallSound initial shared call) (uuid : Uuid) :
    CallSound initial { shared with uuids := uuid :: shared.uuids } call := by
  cases call with
  | prepared catalog update =>
    exact ⟨here.previous, here.computed, List.mem_cons_of_mem _ here.drawn, here.apart⟩
  | written catalog update =>
    obtain ⟨pending, stored⟩ := here
    exact ⟨⟨pending.previous, pending.computed, List.mem_cons_of_mem _ pending.drawn,
      pending.apart⟩, stored⟩
  | _ => exact here

/-- The UUID of a call has been drawn. -/
theorem CallSound.drawn (here : CallSound initial shared call) {uuid : Uuid}
    (own : call.uuid = some uuid) : uuid ∈ shared.uuids := by
  cases call with
  | prepared catalog update => cases own; exact Pending.drawn here
  | written catalog update => cases own; exact here.1.drawn
  | _ => cases own

/-- What a request does up to its first pause. -/
inductive Begins (shared : Shared) : Shared → Option Call → Prop
  | returned : Begins shared shared none
  | selected (catalog : Nat) :
      Begins shared shared (some (.selected catalog shared.row.metadataLocation))
  | prepared (catalog : Nat) (update : Update) (fresh : update.transactionUuid ∉ shared.uuids)
      (cached : shared.caches catalog = some update.previous)
      (computed : commitMetadata update.previous update.commit update.now =
        .ok (update.metadata, update.expiredMetadataFiles)) :
      Begins shared { shared with uuids := update.transactionUuid :: shared.uuids }
        (some (.prepared catalog update))

theorem begin_begins (request : Request) (shared : Shared) :
    Begins shared (begin request shared).1 (begin request shared).2 := by
  cases request with
  | loadTabular catalog => exact .selected catalog
  | updateTable catalog commit now transactionUuid =>
    simp only [SqlCatalog.begin]
    split
    · exact .returned
    · rename_i fresh
      split
      · exact .returned
      · rename_i previous cached
        split
        · exact .returned
        · rename_i computed
          exact .prepared catalog ⟨previous, commit, now, transactionUuid, _, _⟩ fresh cached
            computed

/-- What the next step of a call does. -/
inductive Proceeds (shared : Shared) : Call → Shared → Option Call → Prop
  | failed (catalog : Nat) (location : String) :
      Proceeds shared (.selected catalog location) shared none
  | fetched (catalog : Nat) (location : String) (file : MetadataFile) (plain : file.gzipped = false)
      (found : shared.files location = some file) :
      Proceeds shared (.selected catalog location) shared
        (some (.fetched catalog ⟨location, file.metadata⟩))
  | cached (catalog : Nat) (version : Version) :
      Proceeds shared (.fetched catalog version) (shared.cache catalog (some version)) none
  | written (catalog : Nat) (update : Update) :
      Proceeds shared (.prepared catalog update) (shared.putMetadata update.version)
        (some (.written catalog update))
  | swapped (catalog : Nat) (update : Update)
      (matched : shared.row.metadataLocation = update.previous.location) :
      Proceeds shared (.written catalog update) (shared.swapMetadataLocation update)
        (some (.swapped catalog update update.deletes))
  | lost (catalog : Nat) (update : Update)
      (superseded : shared.row.metadataLocation ≠ update.previous.location) :
      Proceeds shared (.written catalog update) shared (some (.lost catalog))
  | cleared (catalog : Nat) : Proceeds shared (.lost catalog) (shared.cache catalog none) none
  | deleted (catalog : Nat) (update : Update) (location : String) (expired : List String) :
      Proceeds shared (.swapped catalog update (location :: expired)) (shared.delete location)
        (some (.swapped catalog update expired))
  | left (catalog : Nat) (update : Update) (location : String) (expired : List String) :
      Proceeds shared (.swapped catalog update (location :: expired)) shared
        (some (.swapped catalog update expired))
  | returned (catalog : Nat) (update : Update) :
      Proceeds shared (.swapped catalog update []) (shared.cache catalog (some update.version)) none

theorem advance_proceeds (deleted : Bool) (call : Call) (shared : Shared) :
    Proceeds shared call (advance deleted call shared).1 (advance deleted call shared).2 := by
  cases call with
  | selected catalog location =>
    simp only [advance]
    split
    · rename_i metadata read
      obtain ⟨file, found, plain⟩ := Option.map_eq_some_iff.mp read
      simp only [MetadataFile.fromSlice] at plain
      split at plain
      · cases plain
      · rename_i raw
        cases plain
        exact .fetched catalog location file (Bool.eq_false_of_not_eq_true raw) found
    · exact .failed catalog location
  | fetched catalog version => exact .cached catalog version
  | prepared catalog update => exact .written catalog update
  | written catalog update =>
    simp only [advance]
    split
    · rename_i matched
      exact .swapped catalog update matched
    · rename_i other
      exact .lost catalog update other
  | lost catalog => exact .cleared catalog
  | swapped catalog update expired =>
    cases expired with
    | nil => exact .returned catalog update
    | cons location expired =>
      cases deleted
      · exact .left catalog update location expired
      · exact .deleted catalog update location expired

/-- A step keeps what holds of the shared state and of the call itself. -/
theorem Proceeds.sound {after : Shared} {next : Option Call}
    (proceeds : Proceeds shared call after next) (empty : initial.metadata.metadataLog = [])
    (sound : Sound initial shared) (here : CallSound initial shared call) :
    Sound initial after ∧ ∀ call ∈ next, CallSound initial after call := by
  cases proceeds with
  | failed => exact ⟨sound, by simp⟩
  | fetched catalog location file plain found =>
    refine ⟨sound, fun call member => ?_⟩
    cases member
    obtain ⟨version, known, rfl⟩ := here
    rcases sound.files version known with stored | ⟨gone, -⟩
    · rw [stored] at found
      cases found
      exact known
    · rw [gone] at found
      cases found
  | cached catalog version =>
    refine ⟨sound.cache catalog fun entry same => ?_, by simp⟩
    cases same
    exact here
  | written catalog update =>
    refine ⟨sound.putMetadata here.apart, fun call member => ?_⟩
    cases member
    obtain ⟨previous, computed, drawn, apart⟩ := here
    exact ⟨⟨previous, computed, drawn, apart⟩, Function.update_self _ _ _⟩
  | swapped catalog update matched =>
    refine ⟨sound.swap here.1 here.2 matched, fun call member => ?_⟩
    cases member
    exact ⟨List.mem_cons_self, here.1.deletes sound empty matched⟩
  | lost catalog update superseded =>
    refine ⟨sound, fun call member => ?_⟩
    cases member
    trivial
  | cleared catalog => exact ⟨sound.cache catalog (by simp), by simp⟩
  | deleted catalog update location expired =>
    obtain ⟨committed, gone⟩ := here
    refine ⟨sound.delete (gone location List.mem_cons_self).1, fun call member => ?_⟩
    cases member
    exact ⟨committed, fun other later => gone other (List.mem_cons_of_mem _ later)⟩
  | left catalog update location expired =>
    obtain ⟨committed, gone⟩ := here
    refine ⟨sound, fun call member => ?_⟩
    cases member
    exact ⟨committed, fun other later => gone other (List.mem_cons_of_mem _ later)⟩
  | returned catalog update =>
    refine ⟨sound.cache catalog fun entry same => ?_, by simp⟩
    cases same
    exact here.1

/-- A step keeps what holds of the other calls. -/
theorem Proceeds.others {other : Call} {after : Shared} {next : Option Call}
    (proceeds : Proceeds shared call after next) (sound : Sound initial shared)
    (here : CallSound initial shared call) (there : CallSound initial shared other)
    (apart : Apart call other) :
    CallSound initial after other ∧ ∀ call ∈ next, Apart call other := by
  have silent : ∀ call : Call, call.uuid = none → Apart call other := by
    intro call none uuid own
    rw [none] at own
    cases own
  cases proceeds with
  | failed => exact ⟨there, by simp⟩
  | fetched catalog location file plain found => exact ⟨there, by simpa using silent _ rfl⟩
  | cached catalog version => exact ⟨there.cache _ _, by simp⟩
  | written catalog update =>
    constructor
    · refine there.putMetadata fun catalog written same one => ?_
      subst same
      exact apart _ rfl (congrArg some (newMetadataLocation_inj one))
    · intro call member
      cases member
      exact apart
  | swapped catalog update matched =>
    exact ⟨there.swap sound here.1 matched (apart _ rfl), by simpa using silent _ rfl⟩
  | lost catalog update superseded => exact ⟨there, by simpa using silent _ rfl⟩
  | cleared catalog => exact ⟨there.cache _ _, by simp⟩
  | deleted catalog update location expired =>
    exact ⟨there.delete (here.2 location List.mem_cons_self).2, by simpa using silent _ rfl⟩
  | left catalog update location expired => exact ⟨there, by simpa using silent _ rfl⟩
  | returned catalog update => exact ⟨there.cache _ _, by simp⟩

theorem keeps (initial : Version) (empty : initial.metadata.metadataLog = []) :
    Interleaving.Keeps system (Sound initial) (CallSound initial) Apart where
  symm apart uuid own same := apart uuid same own
  begin request {shared} sound := by
    show Sound initial (begin request shared).1 ∧ ∀ call ∈ (begin request shared).2,
      CallSound initial (begin request shared).1 call
    generalize (begin request shared).1 = after, (begin request shared).2 = call,
      begin_begins request shared = begun
    cases begun with
    | returned => exact ⟨sound, by simp⟩
    | selected catalog =>
      refine ⟨sound, fun call here => ?_⟩
      cases here
      exact ⟨_, latest_mem_versions _ _, sound.row.symm⟩
    | prepared catalog update fresh cached computed =>
      refine ⟨sound.draw _, fun call here => ?_⟩
      cases here
      refine ⟨sound.caches catalog _ cached, computed, List.mem_cons_self,
        fun version member same => ?_⟩
      obtain ⟨uuid, drawn, made⟩ := sound.drawn version member
      exact fresh (newMetadataLocation_inj (same.trans made) ▸ drawn)
  beginOther request {shared other} sound here := by
    show CallSound initial (begin request shared).1 other ∧ ∀ call ∈ (begin request shared).2,
      Apart other call
    generalize (begin request shared).1 = after, (begin request shared).2 = call,
      begin_begins request shared = begun
    cases begun with
    | returned => exact ⟨here, by simp⟩
    | selected catalog =>
      refine ⟨here, fun call new => ?_⟩
      cases new
      exact fun _ _ same => by cases same
    | prepared catalog update fresh cached computed =>
      refine ⟨here.draw _, fun call new uuid own same => ?_⟩
      cases new
      cases same
      exact fresh (here.drawn own)
  advance environment {shared call} sound here :=
    (advance_proceeds environment call shared).sound empty sound here
  advanceOther environment {shared call other} sound here there apart :=
    (advance_proceeds environment call shared).others sound here there apart

end Steps

/-! ### Runs -/

/-- The metadata log is the last superseded locations, as many as the current limit allows. -/
def LogsLast (initial : Version) (shared : Shared) : Prop :=
  logFiles (latest initial shared.accepted).metadata = (superseded shared.accepted).rtake
    (min shared.accepted.length (previousVersionsMax (latest initial shared.accepted).metadata))

/-- The accepted commits of a table. -/
structure Commits (initial : Version) (shared : Shared) : Prop where
  chained : Chained initial shared.accepted
  row : shared.row.metadataLocation = (latest initial shared.accepted).location
  stored : shared.files shared.row.metadataLocation =
    some (serializeMetadata shared.row.metadataLocation (latest initial shared.accepted).metadata)
  log : logFiles (latest initial shared.accepted).metadata =
    (superseded shared.accepted).rtake (loggedCount shared.accepted)
  full : (shared.accepted.map fun update => previousVersionsMax update.metadata).Pairwise (· ≤ ·) →
    LogsLast initial shared

/-- What a step leaves alone: the row and the current file, unless it is an accepted swap, and the
files that have not expired. -/
structure LeavesCurrent (initial : Version) (before after : Shared) : Prop where
  unaffected : after.accepted = before.accepted → after.row = before.row ∧
    after.files before.row.metadataLocation = before.files before.row.metadataLocation
  removed : ∀ location, before.files location ≠ none → after.files location = none →
    Expired initial after.accepted location

theorem Sound.commits {shared : Shared} (sound : Sound initial shared)
    (empty : initial.metadata.metadataLog = []) : Commits initial shared where
  chained := sound.chained
  row := sound.row
  stored := by
    rw [sound.row]
    rcases sound.files _ (latest_mem_versions _ _) with stored | ⟨-, expired⟩
    · exact stored
    · exact absurd rfl expired.current
  log := sound.chained.log empty
  full falling := by
    rw [LogsLast, ← loggedCount_eq_min initial falling]
    exact sound.chained.log empty

theorem LeavesCurrent.of_same {before after : Shared} (row : after.row = before.row)
    (files : after.files = before.files) : LeavesCurrent initial before after :=
  ⟨fun _ => ⟨row, by rw [files]⟩, fun _ here gone => absurd (files ▸ gone) here⟩

theorem Proceeds.leavesCurrent {shared after : Shared} {call : Call} {next : Option Call}
    (proceeds : Proceeds shared call after next) (sound : Sound initial shared)
    (here : CallSound initial shared call) : LeavesCurrent initial shared after := by
  cases proceeds with
  | written catalog update =>
    refine ⟨fun _ => ⟨rfl, ?_⟩, fun location here gone => ?_⟩
    · refine Function.update_of_ne ?_ _ _
      rw [sound.row]
      exact (Pending.apart here _ (latest_mem_versions _ _)).symm
    · by_cases same : location = update.version.location
      · simp [Shared.putMetadata, same] at gone
      · exact absurd (by simpa [Shared.putMetadata, same] using gone) here
  | swapped catalog update matched =>
    refine ⟨fun same => ?_, fun location here gone => absurd gone here⟩
    exact absurd (congrArg List.length same) (by simp [Shared.swapMetadataLocation])
  | deleted catalog update location expired =>
    have gone := (here.2 location List.mem_cons_self).1
    refine ⟨fun _ => ⟨rfl, ?_⟩, fun other here missing => ?_⟩
    · refine Function.update_of_ne ?_ _ _
      rw [sound.row]
      exact gone.current.symm
    · by_cases same : other = location
      · exact same ▸ gone
      · exact absurd (by simpa [Shared.delete, same] using missing) here
  | _ => exact .of_same rfl rfl

theorem created_holds (catalog : Nat) (metadata : TableMetadata) (transactionUuid : Uuid) :
    Interleaving.Holds (Sound (createdVersion metadata transactionUuid))
      (CallSound (createdVersion metadata transactionUuid)) Apart
      (created catalog metadata transactionUuid) where
  shared :=
    { chained := trivial
      row := rfl
      drawn := fun version member => by
        rw [List.mem_singleton.mp member]
        exact ⟨transactionUuid, List.mem_singleton_self _, rfl⟩
      apart := List.nodup_singleton _
      caches := fun other version cached => by
        simp only [created] at cached
        split at cached
        · cases cached
          exact List.mem_singleton_self _
        · cases cached
      files := fun version member => by
        rw [List.mem_singleton.mp member]
        exact .inl (if_pos rfl) }
  each call member := absurd member List.not_mem_nil
  pairs := .nil

/-- In every run of any number of instances the accepted commits of a table form a chain, the
metadata log tracks it, and a step other than an accepted swap leaves the row and the current
metadata as they are. -/
theorem sqlCommits (catalog : Nat) (metadata : TableMetadata) (transactionUuid : Uuid)
    (events : List Event) (event : Event) (empty : metadata.metadataLog = []) :
    Commits (createdVersion metadata transactionUuid)
        (runSql catalog metadata transactionUuid events).shared ∧
      LeavesCurrent (createdVersion metadata transactionUuid)
        (runSql catalog metadata transactionUuid events).shared
        (runSql catalog metadata transactionUuid (events ++ [event])).shared := by
  have holds := Interleaving.holds_run (keeps (createdVersion metadata transactionUuid) empty)
    (created_holds catalog metadata transactionUuid) events
  refine ⟨holds.shared.commits empty, ?_⟩
  rw [runSql, runSql, Interleaving.run_snoc]
  generalize Interleaving.run system (created catalog metadata transactionUuid) events = state
    at holds
  cases event with
  | call request =>
    show LeavesCurrent _ state.shared (begin request state.shared).1
    generalize (begin request state.shared).1 = after, (begin request state.shared).2 = call,
      begin_begins request state.shared = begun
    cases begun <;> exact .of_same rfl rfl
  | advance place deleted =>
    simp only [Interleaving.step]
    split
    · exact .of_same rfl rfl
    · rename_i call found
      exact (advance_proceeds deleted call state.shared).leavesCurrent holds.shared
        (holds.each call (List.mem_of_getElem? found))
  | stop place => exact .of_same rfl rfl

/-! ### A raised limit -/

/-- The events of one update of an instance that runs alone. -/
def updateAlone (updates : List TableUpdate) (now : Int) (uuid : Uuid) : List Event :=
  [.call (.updateTable 0 ⟨[], updates⟩ now uuid), .advance 0 true, .advance 0 true, .advance 0 true]

/-- The limit on the metadata log, set to a number of files. -/
def keepVersions (max : String) : TableUpdate :=
  .setProperties (AList.singleton "write.metadata.previous-versions-max" max)

theorem sqlCommits_updateAlone :
    Commits (createdVersion (longTable .v2) ⟨1⟩)
        (runSql 0 (longTable .v2) ⟨1⟩ (updateAlone [keepVersions "1"] 1 ⟨2⟩)).shared ∧
      LeavesCurrent (createdVersion (longTable .v2) ⟨1⟩)
        (runSql 0 (longTable .v2) ⟨1⟩ (updateAlone [keepVersions "1"] 1 ⟨2⟩)).shared
        (runSql 0 (longTable .v2) ⟨1⟩ (updateAlone [keepVersions "1"] 1 ⟨2⟩ ++ [.stop 0])).shared :=
  sqlCommits 0 (longTable .v2) ⟨1⟩ (updateAlone [keepVersions "1"] 1 ⟨2⟩) (.stop 0) rfl

/-- A limit of one is raised to three: the locations cut off before do not come back. -/
theorem raised_limit_not_refilled :
    ¬ LogsLast (createdVersion (longTable .v2) ⟨1⟩)
      (runSql 0 (longTable .v2) ⟨1⟩ (updateAlone [keepVersions "1"] 1 ⟨2⟩ ++
        updateAlone [] 2 ⟨3⟩ ++ updateAlone [keepVersions "3"] 3 ⟨4⟩)).shared := by
  intro last
  exact absurd (congrArg List.length last) (by decide +kernel)

end IcebergRust.SqlCatalog

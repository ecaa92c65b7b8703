import IcebergRust.Catalog.FileCatalog
import IcebergRust.Lib.Fallible
import IcebergRust.Spec.LongValue

/-!
# Commits of the file catalog

When the accepted updates of a table form one chain.

* The next number is a free name as long as the numbers are contiguous and each is taken by
  one file, but an update only looks at the name that fits its own encoding, and a table may
  be dropped and created again under a cache.
* `OnLatest` says that an update was computed on what `metadata_location` finds just before
  its copy, and that its new version is what it finds just after.
* In runs whose accepted updates meet `Undisturbed` and whose creations find no version, all
  accepted updates form one chain (`fileCommits_onLatest`).
-/

namespace IcebergRust.FileCatalog

open TableTransaction

/-! ### What `metadata_location` finds -/

/-- In whichever order the store lists the files, `metadata_location` finds this version. -/
structure Resolves (table : String) (files : Files) (version : Version) : Prop where
  found : ∀ listing, listing.Perm (filesBelow table files) →
    metadataLocation listing = some version.path
  stored : (files.lookup version.path).map (·.metadata) = some version.metadata

/-- The numbered files of a table: the numbers are contiguous, and each is taken once. -/
structure Contiguous (table : String) (files : Files) : Prop where
  once : ∀ n, ⟨table, .versioned n true⟩ ∈ files → (⟨table, .versioned n false⟩ : MetadataPath) ∉ files
  closed : ∀ n gzipped, ⟨table, .versioned (n + 1) gzipped⟩ ∈ files →
    ∃ other, (⟨table, .versioned n other⟩ : MetadataPath) ∈ files

variable {path : MetadataPath}

theorem mem_filesBelow {table : String} {files : Files} :
    path ∈ filesBelow table files ↔ path ∈ files ∧ path.location = table := by
  rw [filesBelow, List.mem_filter, decide_eq_true_iff]
  rfl

theorem isVersioned_iff :
    path.isVersioned = true ↔ ∃ n gzipped, path.name = .versioned n gzipped := by
  obtain ⟨location, name⟩ := path
  cases name <;> simp [MetadataPath.isVersioned]

/-- A numbered file above all others is found. -/
theorem metadataLocation_eq {listing : List MetadataPath} (member : path ∈ listing)
    (versioned : path.isVersioned = true)
    (last : ∀ other ∈ listing, other.isVersioned = true → path.version ≤ other.version →
      other = path) : metadataLocation listing = some path := by
  set sorted := (listing.filter MetadataPath.isVersioned).insertionSort
    fun x y => x.version ≤ y.version with sorts
  have elements : ∀ other, other ∈ sorted ↔ other ∈ listing ∧ other.isVersioned = true := by
    intro other
    rw [sorts, List.mem_insertionSort, List.mem_filter]
  have ordered : sorted.Pairwise fun x y => x.version ≤ y.version := by
    have total : Std.Total fun x y : MetadataPath => x.version ≤ y.version :=
      ⟨fun x y => Nat.le_total x.version y.version⟩
    have transitive : IsTrans MetadataPath fun x y => x.version ≤ y.version :=
      ⟨fun _ _ _ => Nat.le_trans⟩
    exact List.pairwise_insertionSort _ _
  show sorted.getLast? = some path
  clear_value sorted
  have here : path ∈ sorted := (elements path).mpr ⟨member, versioned⟩
  cases found : sorted.getLast? with
  | none =>
    rw [List.getLast?_eq_none_iff.mp found] at here
    cases here
  | some highest =>
    obtain ⟨before, rfl⟩ : ∃ before, sorted = before ++ [highest] :=
      List.getLast?_eq_some_iff.mp found
    have above : path.version ≤ highest.version := by
      rcases List.mem_append.mp here with early | same
      · exact (List.pairwise_append.mp ordered).2.2 path early highest (List.mem_singleton_self _)
      · rw [List.mem_singleton.mp same]
    have listed := (elements highest).mp (by simp)
    rw [last highest listed.1 listed.2 above]

theorem metadataLocation_spec {listing : List MetadataPath}
    (found : metadataLocation listing = some path) : path ∈ listing ∧ path.isVersioned = true := by
  have member := List.mem_of_getLast? found
  rwa [List.mem_insertionSort, List.mem_filter] at member

theorem mem_arrange {order paths : List MetadataPath} :
    path ∈ arrange order paths ↔ path ∈ paths := by
  unfold arrange
  split
  · rename_i perm
    exact perm.mem_iff
  · rfl

/-! ### Contiguous versions -/

section Numbers

variable {table : String} {files : Files}

/-- Whether a number is taken. -/
def Taken (table : String) (files : Files) (n : Nat) : Prop :=
  ∃ gzipped, (⟨table, .versioned n gzipped⟩ : MetadataPath) ∈ files

theorem Contiguous.below (contiguous : Contiguous table files) {m n : Nat} (le : m ≤ n)
    (taken : Taken table files n) : Taken table files m := by
  induction n with
  | zero => rwa [Nat.le_zero.mp le]
  | succ n ih =>
    rcases Nat.lt_or_eq_of_le le with below | rfl
    · obtain ⟨gzipped, member⟩ := taken
      exact ih (Nat.le_of_lt_succ below) (contiguous.closed n gzipped member)
    · exact taken

/-- A version after which the next number is free is the one that is found. -/
theorem Contiguous.resolves (contiguous : Contiguous table files) {version : Version} {n : Nat}
    {gzipped : Bool} (path : version.path = ⟨table, .versioned n gzipped⟩)
    (stored : (files.lookup version.path).map (·.metadata) = some version.metadata)
    (free : ¬ Taken table files (n + 1)) : Resolves table files version := by
  refine ⟨fun listing perm => ?_, stored⟩
  obtain ⟨file, found, -⟩ := Option.map_eq_some_iff.mp stored
  have member : version.path ∈ files := AList.lookup_isSome.mp (by rw [found]; rfl)
  have listed : ∀ other, other ∈ listing ↔ other ∈ files ∧ other.location = table := by
    intro other
    rw [perm.mem_iff, mem_filesBelow]
  refine metadataLocation_eq ((listed _).mpr ⟨member, by rw [path]⟩)
    (isVersioned_iff.mpr ⟨n, gzipped, by rw [path]⟩) fun other there versioned above => ?_
  obtain ⟨stays, located⟩ := (listed other).mp there
  obtain ⟨m, encoding, name⟩ := isVersioned_iff.mp versioned
  obtain ⟨location, otherName⟩ := other
  subst located name
  rw [path] at above member ⊢
  have le : n ≤ m := above
  -- A higher number would leave no free one below it.
  have same : m = n := by
    by_contra differ
    exact free (contiguous.below (by omega) ⟨encoding, stays⟩)
  subst same
  cases gzipped <;> cases encoding
  · rfl
  · exact absurd member (contiguous.once m stays)
  · exact absurd stays (contiguous.once m member)
  · rfl

/-- The next number may be taken. -/
theorem Contiguous.insert (contiguous : Contiguous table files) {n : Nat} {gzipped : Bool}
    {content : MetadataFile} (taken : Taken table files n) (free : ¬ Taken table files (n + 1)) :
    Contiguous table (files.insert ⟨table, .versioned (n + 1) gzipped⟩ content) where
  once m here there := by
    rw [AList.mem_insert, MetadataPath.mk.injEq, MetadataName.versioned.injEq] at here there
    rcases here with ⟨-, same, compressed⟩ | here <;> rcases there with ⟨-, again, plain⟩ | there
    · rw [← compressed] at plain
      cases plain
    · exact free ⟨false, same ▸ there⟩
    · exact free ⟨true, again ▸ here⟩
    · exact contiguous.once m here there
  closed m encoding member := by
    simp only [AList.mem_insert]
    rw [AList.mem_insert, MetadataPath.mk.injEq, MetadataName.versioned.injEq] at member
    rcases member with ⟨-, same, -⟩ | old
    · obtain ⟨other, below⟩ := taken
      exact ⟨other, .inr (Nat.succ.inj same ▸ below)⟩
    · obtain ⟨other, below⟩ := contiguous.closed m encoding old
      exact ⟨other, .inr below⟩

/-- Only the first version is there, or none. -/
def OnlyFirst (table : String) (files : Files) : Prop :=
  ∀ path ∈ files, path.location = table → path.isVersioned = true → path = firstPath table

theorem OnlyFirst.contiguous (only : OnlyFirst table files) : Contiguous table files where
  once n here := absurd (only _ here rfl rfl) (by simp [firstPath])
  closed n gzipped here := absurd (only _ here rfl rfl) (by simp [firstPath])

end Numbers

/-! ### Accepted updates -/

/-- An update that was computed on the latest version, and that left the next one. -/
structure OnLatest (table : String) (accepted : Accepted) : Prop where
  required : checkTableRequirements accepted.update.commit.requirements
    accepted.update.previous.metadata = true
  applied : applyTableUpdates accepted.update.previous.metadata accepted.update.commit.updates
    accepted.update.now = .ok accepted.update.metadata
  free : accepted.target ∉ accepted.found
  before : Resolves table accepted.found accepted.update.previous
  after : Resolves table (accepted.found.insert accepted.target accepted.content)
    ⟨accepted.target, accepted.update.metadata⟩

/-- The accepted updates form one chain. -/
structure SingleChain (table : String) (shared : Shared) : Prop where
  onLatest : ∀ accepted ∈ shared.accepted, OnLatest table accepted

/-- What an update has to meet just before its copy: the file it replaces still holds what it was
computed on, no file has its number, no drop has begun without completing, and it stays where
the table is. -/
structure Undisturbed (table : String) (accepted : Accepted) : Prop where
  kept : (accepted.found.lookup accepted.update.previous.path).map (·.metadata) =
    some accepted.update.previous.metadata
  free : ¬ Taken table accepted.found accepted.target.version
  idle : accepted.dropping = []
  located : accepted.target.location = table

/-- No file of the table is numbered. -/
def NoVersion (table : String) (files : Files) : Prop :=
  ∀ path ∈ files, path.location = table → path.isVersioned = false

/-- Runs in which nothing disturbs an accepted update, and creations find no version. -/
structure Clean (table : String) (shared : Shared) : Prop where
  accepted : ∀ accepted ∈ shared.accepted, Undisturbed table accepted
  created : ∀ found ∈ shared.created, NoVersion table found

/-! ### Invariants -/

/-- A numbered file of the table. -/
def Numbered (table : String) (path : MetadataPath) : Prop :=
  path.location = table ∧ path.isVersioned = true

/-- What holds of the files and the caches. -/
structure Sound (table : String) (shared : Shared) : Prop where
  latest : ∀ accepted ∈ shared.accepted, OnLatest table accepted
  contiguous : shared.dropping = [] → Contiguous table shared.files
  bounded : ∀ path ∈ shared.files, path.version < 18446744073709551616
  caches : ∀ catalog version, shared.caches catalog = some version → Numbered table version.path
  drops : ∀ drop ∈ shared.dropping, drop < shared.drops

/-- An update that has been computed from a numbered file. -/
structure Computed (table : String) (update : Update) : Prop where
  previous : Numbered table update.previous.path
  required : checkTableRequirements update.commit.requirements update.previous.metadata = true
  applied : applyTableUpdates update.previous.metadata update.commit.updates update.now =
    .ok update.metadata

/-- What holds of a call between two steps. -/
def CallSound (table : String) (shared : Shared) : Call → Prop
  | .located _ path => Numbered table path
  | .fetched _ version => Numbered table version.path
  | .computed _ update => Computed table update
  | .staged _ update => Computed table update ∧
    ∀ content, shared.files.lookup update.tempMetadataLocation = some content →
      content = ⟨update.gzipped, update.metadata⟩
  | .committed _ version => Numbered table version.path
  | .absent _ version => version.path = firstPath table
  | .deleting _ drop paths => drop ∈ shared.dropping ∧
    ∀ path ∈ shared.files, Numbered table path → path ∈ paths ∨ OnlyFirst table shared.files

namespace Call

/-- The UUID of an update whose file of its own may be there. -/
def uuid : Call → Option Uuid
  | .computed _ update => some update.transactionUuid
  | .staged _ update => some update.transactionUuid
  | _ => none

def drop : Call → Option Nat
  | .deleting _ drop _ => some drop
  | _ => none

end Call

/-- Calls draw different UUIDs, and drops different numbers. -/
structure Apart (one other : Call) : Prop where
  uuid : ∀ uuid, one.uuid = some uuid → other.uuid ≠ some uuid
  drop : ∀ drop, one.drop = some drop → other.drop ≠ some drop

theorem Apart.of_silent {one other : Call} (uuid : other.uuid = none) (drop : other.drop = none) :
    Apart one other :=
  ⟨fun _ _ same => Option.some_ne_none _ (same.symm.trans uuid),
    fun _ _ same => Option.some_ne_none _ (same.symm.trans drop)⟩

theorem Apart.symm {one other : Call} (apart : Apart one other) : Apart other one :=
  ⟨fun uuid own same => apart.uuid uuid same own, fun drop own same => apart.drop drop same own⟩

/-! ### One update -/

section Steps

variable {table : String} {shared : Shared}

theorem numbered_iff {path : MetadataPath} :
    Numbered table path ↔ ∃ n gzipped, path = ⟨table, .versioned n gzipped⟩ := by
  obtain ⟨location, name⟩ := path
  constructor
  · rintro ⟨here, versioned⟩
    obtain ⟨n, gzipped, same⟩ := isVersioned_iff.mp versioned
    exact ⟨n, gzipped, MetadataPath.mk.injEq .. |>.mpr ⟨here, same⟩⟩
  · rintro ⟨n, gzipped, same⟩
    obtain ⟨rfl, rfl⟩ := MetadataPath.mk.injEq .. |>.mp same
    exact ⟨rfl, rfl⟩

/-- An undisturbed update takes the number after the last one. -/
theorem Undisturbed.next {accepted : Accepted} (undisturbed : Undisturbed table accepted)
    (contiguous : Contiguous table accepted.found)
    (bounded : ∀ path ∈ accepted.found, path.version < 18446744073709551616)
    (previous : Numbered table accepted.update.previous.path)
    (named : newFilesystemMetadataLocation accepted.update.metadata.location
      accepted.update.previous.path accepted.update.gzipped = .ok accepted.target) :
    ∃ n gzipped, accepted.update.previous.path = ⟨table, .versioned n gzipped⟩ ∧
      Taken table accepted.found n ∧ ¬ Taken table accepted.found (n + 1) ∧
      accepted.target = ⟨table, .versioned (n + 1) accepted.update.gzipped⟩ := by
  obtain ⟨n, gzipped, path⟩ := numbered_iff.mp previous
  obtain ⟨file, found, -⟩ := Option.map_eq_some_iff.mp undisturbed.kept
  have member : accepted.update.previous.path ∈ accepted.found :=
    AList.lookup_isSome.mp (by rw [found]; rfl)
  have below : n < 18446744073709551616 := by
    have bound := bounded _ member
    rwa [path] at bound
  rw [path] at named member
  have target : accepted.target = ⟨accepted.update.metadata.location,
      .versioned ((n + 1) % 18446744073709551616) accepted.update.gzipped⟩ :=
    (Except.ok.inj named).symm
  have located := undisturbed.located
  have free := undisturbed.free
  rw [target] at located free
  have located : accepted.update.metadata.location = table := located
  have free : ¬ Taken table accepted.found ((n + 1) % 18446744073709551616) := free
  have taken : Taken table accepted.found n := ⟨gzipped, member⟩
  have next : (n + 1) % 18446744073709551616 = n + 1 := by
    refine Nat.mod_eq_of_lt (Nat.lt_of_le_of_ne below fun last => ?_)
    rw [last, Nat.mod_self] at free
    exact free (contiguous.below (Nat.zero_le n) taken)
  rw [next] at target free
  rw [located] at target
  exact ⟨n, gzipped, path, taken, free, target⟩

theorem Undisturbed.onLatest {accepted : Accepted} (undisturbed : Undisturbed table accepted)
    (contiguous : Contiguous table accepted.found)
    (bounded : ∀ path ∈ accepted.found, path.version < 18446744073709551616)
    (computed : Computed table accepted.update)
    (content : accepted.content = ⟨accepted.update.gzipped, accepted.update.metadata⟩)
    (free : accepted.target ∉ accepted.found)
    (named : newFilesystemMetadataLocation accepted.update.metadata.location
      accepted.update.previous.path accepted.update.gzipped = .ok accepted.target) :
    OnLatest table accepted ∧
      Contiguous table (accepted.found.insert accepted.target accepted.content) := by
  obtain ⟨n, gzipped, path, taken, next, target⟩ :=
    undisturbed.next contiguous bounded computed.previous named
  have longer : Contiguous table (accepted.found.insert accepted.target accepted.content) := by
    rw [target]
    exact contiguous.insert taken next
  refine ⟨⟨computed.required, computed.applied, free, ?_, ?_⟩, longer⟩
  · exact contiguous.resolves path undisturbed.kept next
  · refine longer.resolves target (by simp [AList.lookup_insert, content]) ?_
    rintro ⟨encoding, member⟩
    rw [AList.mem_insert, target, MetadataPath.mk.injEq, MetadataName.versioned.injEq] at member
    rcases member with ⟨-, same, -⟩ | old
    · omega
    · exact next (contiguous.below (Nat.le_succ _) ⟨encoding, old⟩)

/-! ### The beginning of a call -/

/-- What a request does up to its first pause. -/
inductive Begins (table : String) (shared : Shared) : Shared → Option Call → Prop
  | returned : Begins table shared shared none
  | located (catalog : Nat) (path : MetadataPath) (numbered : Numbered table path) :
      Begins table shared shared (some (.located catalog path))
  | computed (catalog : Nat) (update : Update) (fresh : update.transactionUuid ∉ shared.uuids)
      (cached : shared.caches catalog = some update.previous)
      (required : checkTableRequirements update.commit.requirements update.previous.metadata = true)
      (applied : applyTableUpdates update.previous.metadata update.commit.updates update.now =
        .ok update.metadata) :
      Begins table shared { shared with uuids := update.transactionUuid :: shared.uuids }
        (some (.computed catalog update))
  | absent (catalog : Nat) (version : Version) (first : version.path = firstPath table) :
      Begins table shared shared (some (.absent catalog version))
  | deleting (catalog : Nat) (paths : List MetadataPath)
      (all : ∀ path ∈ shared.files, path.location = table → path ∈ paths) :
      Begins table shared
        { shared with drops := shared.drops + 1, dropping := shared.drops :: shared.dropping }
        (some (.deleting catalog shared.drops paths))

theorem begin_begins (table : String) (request : Request) (shared : Shared) :
    Begins table shared (begin table request shared).1 (begin table request shared).2 := by
  cases request with
  | loadTabular catalog order =>
    simp only [FileCatalog.begin]
    cases found : metadataLocation (arrange order (filesBelow table shared.files)) with
    | none => exact .returned
    | some path =>
      obtain ⟨member, versioned⟩ := metadataLocation_spec found
      exact .located catalog path ⟨(mem_filesBelow.mp (mem_arrange.mp member)).2, versioned⟩
  | updateTable catalog commit now transactionUuid =>
    simp only [FileCatalog.begin]
    split
    · exact .returned
    · rename_i fresh
      split
      · exact .returned
      · rename_i previous cached
        split
        · rename_i required
          split
          · exact .returned
          · rename_i metadata applied
            exact .computed catalog ⟨previous, commit, now, transactionUuid, metadata⟩ fresh cached
              required applied
        · exact .returned
  | createTable catalog metadata order =>
    simp only [FileCatalog.begin]
    split
    · exact .returned
    · exact .absent catalog ⟨firstPath table, { metadata with location := table }⟩ rfl
  | dropTable catalog order =>
    exact .deleting catalog _ fun path member below =>
      mem_arrange.mpr (mem_filesBelow.mpr ⟨member, below⟩)

variable {after : Shared} {call next : Option Call}

theorem Begins.clean (begins : Begins table shared after call) (clean : Clean table after) :
    Clean table shared := by
  cases begins <;> exact ⟨clean.accepted, clean.created⟩

theorem Begins.sound (begins : Begins table shared after call) (sound : Sound table shared) :
    Sound table after ∧ ∀ begun ∈ call, CallSound table after begun := by
  obtain ⟨latest, contiguous, bounded, caches, drops⟩ := sound
  cases begins with
  | returned => exact ⟨⟨latest, contiguous, bounded, caches, drops⟩, by simp⟩
  | located catalog path numbered =>
    refine ⟨⟨latest, contiguous, bounded, caches, drops⟩, fun call member => ?_⟩
    cases member
    exact numbered
  | computed catalog update fresh cached required applied =>
    refine ⟨⟨latest, contiguous, bounded, caches, drops⟩, fun call member => ?_⟩
    cases member
    exact ⟨caches _ _ cached, required, applied⟩
  | absent catalog version first =>
    refine ⟨⟨latest, contiguous, bounded, caches, drops⟩, fun call member => ?_⟩
    cases member
    exact first
  | deleting catalog paths all =>
    refine ⟨⟨latest, fun none => (List.cons_ne_nil _ _ none).elim, bounded, caches, ?_⟩, ?_⟩
    · intro drop member
      rcases List.mem_cons.mp member with rfl | old
      · exact Nat.lt_succ_self _
      · exact Nat.lt_succ_of_lt (drops drop old)
    · intro call member
      cases member
      exact ⟨List.mem_cons_self, fun path here numbered => .inl (all path here numbered.1)⟩

/-- Beginning a call changes nothing that holds of the others. -/
theorem Begins.others {other : Call} (begins : Begins table shared after call)
    (there : CallSound table shared other) : CallSound table after other := by
  cases begins with
  | deleting catalog paths all =>
    cases other with
    | deleting catalog drop paths => exact ⟨List.mem_cons_of_mem _ there.1, there.2⟩
    | _ => exact there
  | computed => cases other <;> exact there
  | _ => exact there

theorem Begins.apart {other : Call} (begins : Begins table shared after call)
    (uuids : ∀ uuid, other.uuid = some uuid → uuid ∈ shared.uuids)
    (drops : ∀ drop, other.drop = some drop → drop < shared.drops) :
    ∀ begun ∈ call, Apart other begun := by
  intro begun member
  cases begins with
  | returned => cases member
  | located catalog path numbered =>
    cases member
    exact .of_silent rfl rfl
  | computed catalog update fresh cached required applied =>
    cases member
    refine ⟨fun uuid own same => ?_, fun drop own same => Option.some_ne_none _ same.symm⟩
    cases same
    exact fresh (uuids _ own)
  | absent catalog version first =>
    cases member
    exact .of_silent rfl rfl
  | deleting catalog paths all =>
    cases member
    refine ⟨fun uuid own same => Option.some_ne_none _ same.symm, fun drop own same => ?_⟩
    cases same
    exact Nat.lt_irrefl _ (drops _ own)

/-! ### The next step of a call -/

/-- What the next step of a call does. -/
inductive Proceeds (shared : Shared) : Call → Shared → Option Call → Prop
  | failed (call : Call) : Proceeds shared call shared none
  | fetched (catalog : Nat) (path : MetadataPath) (metadata : TableMetadata) :
      Proceeds shared (.located catalog path) shared (some (.fetched catalog ⟨path, metadata⟩))
  | cached (call : Call) (catalog : Nat) (version : Version)
      (known : call = .fetched catalog version ∨ call = .committed catalog version) :
      Proceeds shared call (shared.cache catalog (some version)) none
  | staged (catalog : Nat) (update : Update) :
      Proceeds shared (.computed catalog update)
        (shared.put update.tempMetadataLocation ⟨update.gzipped, update.metadata⟩)
        (some (.staged catalog update))
  | copied (catalog : Nat) (update : Update) (target : MetadataPath) (content : MetadataFile)
      (named : newFilesystemMetadataLocation update.metadata.location update.previous.path
        update.gzipped = .ok target)
      (own : shared.files.lookup update.tempMetadataLocation = some content)
      (free : target ∉ shared.files) :
      Proceeds shared (.staged catalog update) (shared.copy update target content)
        (some (.committed catalog ⟨target, update.metadata⟩))
  | created (catalog : Nat) (version : Version) :
      Proceeds shared (.absent catalog version) (shared.create version)
        (some (.committed catalog version))
  | deleted (catalog drop : Nat) (path : MetadataPath) (paths : List MetadataPath) :
      Proceeds shared (.deleting catalog drop (path :: paths)) (shared.delete path)
        (some (.deleting catalog drop paths))
  | dropped (catalog drop : Nat) :
      Proceeds shared (.deleting catalog drop [])
        { shared.cache catalog none with dropping := shared.dropping.erase drop } none

theorem advance_proceeds (call : Call) (shared : Shared) :
    Proceeds shared call (advance call shared).1 (advance call shared).2 := by
  cases call with
  | located catalog path =>
    simp only [advance]
    split
    · exact .fetched catalog path _
    · exact .failed _
  | fetched catalog version => exact .cached _ catalog version (.inl rfl)
  | computed catalog update => exact .staged catalog update
  | staged catalog update =>
    simp only [advance]
    split
    · rename_i target content named own
      split
      · exact .failed _
      · rename_i free
        exact .copied catalog update target content named own free
    · exact .failed _
  | committed catalog version => exact .cached _ catalog version (.inr rfl)
  | absent catalog version => exact .created catalog version
  | deleting catalog drop paths =>
    cases paths with
    | nil => exact .dropped catalog drop
    | cons path paths => exact .deleted catalog drop path paths

theorem Proceeds.clean {call : Call} (proceeds : Proceeds shared call after next)
    (clean : Clean table after) : Clean table shared := by
  cases proceeds with
  | copied catalog update target content named own free =>
    exact ⟨fun one member => clean.accepted one (List.mem_cons_of_mem _ member), clean.created⟩
  | created catalog version =>
    exact ⟨clean.accepted, fun found member => clean.created found (List.mem_cons_of_mem _ member)⟩
  | _ => exact ⟨clean.accepted, clean.created⟩

/-- The number of a file that an update is copied to. -/
theorem numbered_target {location : String} {previous target : MetadataPath} {gzipped : Bool}
    (named : newFilesystemMetadataLocation location previous gzipped = .ok target) :
    ∃ n, n < 18446744073709551616 ∧ target = ⟨location, .versioned n gzipped⟩ := by
  obtain ⟨version, -, same⟩ := Fallible.bind_eq_ok.mp named
  exact ⟨_, Nat.mod_lt _ (by decide), (Except.ok.inj same).symm⟩

theorem tempMetadataLocation_ne_versioned (update : Update) (location : String) (n : Nat)
    (gzipped : Bool) : update.tempMetadataLocation ≠ ⟨location, .versioned n gzipped⟩ := by
  simp [Update.tempMetadataLocation]

/-- Writing a file of its own does not touch the numbered ones. -/
theorem mem_put_iff {update : Update} {content : MetadataFile} {path : MetadataPath}
    (numbered : Numbered table path) :
    path ∈ shared.files.insert update.tempMetadataLocation content ↔ path ∈ shared.files := by
  obtain ⟨n, gzipped, rfl⟩ := numbered_iff.mp numbered
  rw [AList.mem_insert]
  exact or_iff_right (tempMetadataLocation_ne_versioned update table n gzipped).symm

theorem Contiguous.of_iff {files other : Files} (contiguous : Contiguous table files)
    (same : ∀ path, Numbered table path → (path ∈ other ↔ path ∈ files)) :
    Contiguous table other where
  once n here there := contiguous.once n ((same _ ⟨rfl, rfl⟩).mp here) ((same _ ⟨rfl, rfl⟩).mp there)
  closed n gzipped here := by
    obtain ⟨encoding, below⟩ := contiguous.closed n gzipped ((same _ ⟨rfl, rfl⟩).mp here)
    exact ⟨encoding, (same _ ⟨rfl, rfl⟩).mpr below⟩

theorem OnlyFirst.mono {files fewer : Files} (only : OnlyFirst table files)
    (less : ∀ path, Numbered table path → path ∈ fewer → path ∈ files) : OnlyFirst table fewer :=
  fun path member here versioned => only path (less path ⟨here, versioned⟩ member) here versioned

theorem onlyFirst_create {version : Version} (first : version.path = firstPath table)
    (none : NoVersion table shared.files) : OnlyFirst table (shared.create version).files := by
  intro path member here versioned
  rcases AList.mem_insert _ |>.mp member with same | old
  · rw [same, first]
  · rw [none path old here] at versioned
    cases versioned

/-- A step keeps what holds of the shared state and of the call itself. -/
theorem Proceeds.sound {call : Call} (proceeds : Proceeds shared call after next)
    (clean : Clean table after) (sound : Sound table shared) (here : CallSound table shared call) :
    Sound table after ∧ ∀ call ∈ next, CallSound table after call := by
  obtain ⟨latest, contiguous, bounded, caches, drops⟩ := sound
  have filled : ∀ (catalog : Nat) (entry : Option Version),
      (∀ version ∈ entry, Numbered table version.path) → ∀ other version,
        (shared.cache catalog entry).caches other = some version → Numbered table version.path := by
    intro catalog entry known other version cached
    by_cases same : other = catalog
    · subst same
      exact known version (by simpa [Shared.cache] using cached)
    · exact caches other version (by simpa [Shared.cache, same] using cached)
  cases proceeds with
  | failed => exact ⟨⟨latest, contiguous, bounded, caches, drops⟩, by simp⟩
  | fetched catalog path metadata =>
    refine ⟨⟨latest, contiguous, bounded, caches, drops⟩, fun call member => ?_⟩
    cases member
    exact here
  | cached call catalog version known =>
    refine ⟨⟨latest, contiguous, bounded, filled _ _ fun entry same => ?_, drops⟩, by simp⟩
    cases same
    rcases known with rfl | rfl <;> exact here
  | staged catalog update =>
    refine ⟨⟨latest, fun idle => ?_, fun path member => ?_, caches, drops⟩, fun call member => ?_⟩
    · exact (contiguous idle).of_iff fun path numbered => mem_put_iff numbered
    · rcases AList.mem_insert _ |>.mp member with same | old
      · rw [same]
        exact Nat.two_pow_pos 64
      · exact bounded path old
    · cases member
      refine ⟨here, fun content found => ?_⟩
      exact Option.some.inj (found.symm.trans (AList.lookup_insert _))
  | copied catalog update target content named own free =>
    have undisturbed := clean.accepted _ List.mem_cons_self
    have idle : shared.dropping = [] := undisturbed.idle
    obtain ⟨onLatest, longer⟩ := undisturbed.onLatest (contiguous idle) bounded here.1
      (here.2 content own) free named
    obtain ⟨n, below, path⟩ := numbered_target named
    refine ⟨⟨fun one member => ?_, fun _ => longer, fun other member => ?_, caches, drops⟩,
      fun call member => ?_⟩
    · rcases List.mem_cons.mp member with rfl | old
      · exact onLatest
      · exact latest one old
    · rcases AList.mem_insert _ |>.mp member with same | old
      · rw [same, path]
        exact below
      · exact bounded other old
    · cases member
      exact ⟨undisturbed.located, by rw [path]; rfl⟩
  | created catalog version =>
    have only := onlyFirst_create here (clean.created _ List.mem_cons_self)
    refine ⟨⟨latest, fun _ => only.contiguous, fun path member => ?_, caches, drops⟩,
      fun call member => ?_⟩
    · rcases AList.mem_insert _ |>.mp member with same | old
      · rw [same, (here : version.path = _)]
        exact Nat.two_pow_pos 64
      · exact bounded path old
    · cases member
      exact numbered_iff.mpr ⟨0, false, here⟩
  | deleted catalog drop path paths =>
    obtain ⟨begun, left⟩ := here
    refine ⟨⟨latest, fun idle => ?_, fun other member => ?_, caches, drops⟩, fun call member => ?_⟩
    · exact absurd begun (by rw [show shared.dropping = [] from idle]; exact List.not_mem_nil)
    · exact bounded other (AList.mem_erase.mp member).2
    · cases member
      refine ⟨begun, fun other member numbered => ?_⟩
      obtain ⟨differ, old⟩ := AList.mem_erase.mp member
      rcases left other old numbered with listed | only
      · exact .inl ((List.mem_cons.mp listed).resolve_left differ)
      · exact .inr (only.mono fun _ _ member => (AList.mem_erase.mp member).2)
  | dropped catalog drop =>
    have only : OnlyFirst table shared.files := by
      intro path member below versioned
      rcases here.2 path member ⟨below, versioned⟩ with listed | only
      · cases listed
      · exact only path member below versioned
    refine ⟨⟨latest, fun _ => only.contiguous, bounded, filled _ _ (by simp), fun drop member => ?_⟩,
      by simp⟩
    exact drops drop (List.mem_of_mem_erase member)

/-- A file of its own is found as it was, or not at all, after other files have changed. -/
theorem CallSound.of_files {call : Call} (there : CallSound table shared call)
    (own : ∀ catalog update content, call = .staged catalog update →
      after.files.lookup update.tempMetadataLocation = some content →
        shared.files.lookup update.tempMetadataLocation = some content)
    (dropping : ∀ catalog drop paths, call = .deleting catalog drop paths →
      CallSound table after call) : CallSound table after call := by
  cases call with
  | staged catalog update =>
    exact ⟨there.1, fun content found => there.2 content (own catalog update content rfl found)⟩
  | deleting catalog drop paths => exact dropping catalog drop paths rfl
  | _ => exact there

/-- A step keeps what holds of the other calls. -/
theorem Proceeds.others {call other : Call} (proceeds : Proceeds shared call after next)
    (clean : Clean table after) (here : CallSound table shared call)
    (there : CallSound table shared other) (apart : Apart call other) :
    CallSound table after other := by
  cases proceeds with
  | staged catalog update =>
    refine there.of_files ?_ ?_
    · rintro catalog written content rfl found
      rwa [Shared.put, AList.lookup_insert_ne] at found
      intro same
      obtain ⟨-, names⟩ := MetadataPath.mk.injEq .. |>.mp same
      obtain ⟨-, drawn, -⟩ := MetadataName.unique.injEq .. |>.mp names
      exact apart.uuid _ rfl (congrArg some drawn)
    · rintro catalog drop paths rfl
      refine ⟨there.1, fun path member numbered => ?_⟩
      rcases there.2 path ((mem_put_iff numbered).mp member) numbered with listed | only
      · exact .inl listed
      · exact .inr (only.mono fun path numbered => (mem_put_iff numbered).mp)
  | copied catalog update target content named own free =>
    obtain ⟨n, -, path⟩ := numbered_target named
    refine there.of_files ?_ ?_
    · rintro catalog written content rfl found
      rwa [Shared.copy, AList.lookup_insert_ne] at found
      rw [path]
      exact tempMetadataLocation_ne_versioned _ _ _ _
    · rintro catalog drop paths rfl
      have idle : shared.dropping = [] := (clean.accepted _ List.mem_cons_self).idle
      exact absurd there.1 (by rw [idle]; exact List.not_mem_nil)
  | created catalog version =>
    refine there.of_files ?_ ?_
    · rintro catalog written content rfl found
      rwa [Shared.create, AList.lookup_insert_ne] at found
      rw [(here : version.path = _)]
      exact tempMetadataLocation_ne_versioned _ _ _ _
    · rintro catalog drop paths rfl
      exact ⟨there.1, fun _ _ _ => .inr
        (onlyFirst_create here (clean.created _ List.mem_cons_self))⟩
  | deleted catalog drop path paths =>
    refine there.of_files ?_ ?_
    · rintro catalog written content rfl found
      by_cases same : written.tempMetadataLocation = path
      · rw [Shared.delete, same, AList.lookup_erase] at found
        cases found
      · rwa [Shared.delete, AList.lookup_erase_ne same] at found
    · rintro catalog drop paths rfl
      refine ⟨there.1, fun path member numbered => ?_⟩
      rcases there.2 path (AList.mem_erase.mp member).2 numbered with listed | only
      · exact .inl listed
      · exact .inr (only.mono fun _ _ member => (AList.mem_erase.mp member).2)
  | dropped catalog drop =>
    refine there.of_files (fun _ _ _ _ found => found) ?_
    rintro catalog drop paths rfl
    exact ⟨(List.mem_erase_of_ne fun same => apart.drop _ rfl (congrArg some same)).mpr there.1,
      there.2⟩
  | _ => cases other <;> exact there

theorem Proceeds.apart {call other : Call} (proceeds : Proceeds shared call after next)
    (apart : Apart call other) : ∀ call ∈ next, Apart call other := by
  intro following member
  cases proceeds with
  | staged catalog update => cases member; exact ⟨apart.uuid, apart.drop⟩
  | deleted catalog drop path paths => cases member; exact ⟨apart.uuid, apart.drop⟩
  | failed => cases member
  | cached => cases member
  | dropped => cases member
  | _ =>
    cases member
    exact Apart.symm (.of_silent rfl rfl)

/-! ### Runs -/

/-- What a call has drawn is among what has been drawn. -/
structure Drawn (shared : Shared) (call : Call) : Prop where
  uuid : ∀ uuid, call.uuid = some uuid → uuid ∈ shared.uuids
  drop : ∀ drop, call.drop = some drop → drop < shared.drops

theorem Drawn.of_silent {shared : Shared} {call : Call} (uuid : call.uuid = none)
    (drop : call.drop = none) : Drawn shared call :=
  ⟨fun _ own => absurd (own.symm.trans uuid) (Option.some_ne_none _),
    fun _ own => absurd (own.symm.trans drop) (Option.some_ne_none _)⟩

theorem Begins.drawn (begins : Begins table shared after call) :
    (∀ begun ∈ call, Drawn after begun) ∧ ∀ other, Drawn shared other → Drawn after other := by
  cases begins with
  | returned => exact ⟨by simp, fun _ => id⟩
  | located catalog path numbered =>
    refine ⟨fun begun member => ?_, fun _ => id⟩
    cases member
    exact .of_silent rfl rfl
  | computed catalog update fresh cached required applied =>
    refine ⟨fun begun member => ?_, fun other drawn =>
      ⟨fun uuid own => List.mem_cons_of_mem _ (drawn.uuid uuid own), drawn.drop⟩⟩
    cases member
    refine ⟨fun uuid own => ?_, fun _ own => nomatch own⟩
    cases own
    exact List.mem_cons_self
  | absent catalog version first =>
    refine ⟨fun begun member => ?_, fun _ => id⟩
    cases member
    exact .of_silent rfl rfl
  | deleting catalog paths all =>
    refine ⟨fun begun member => ?_, fun other drawn =>
      ⟨drawn.uuid, fun drop own => Nat.lt_succ_of_lt (drawn.drop drop own)⟩⟩
    cases member
    refine ⟨fun _ own => (nomatch own), fun drop own => ?_⟩
    cases own
    exact Nat.lt_succ_self _

theorem Proceeds.drawn {call : Call} (proceeds : Proceeds shared call after next)
    (drawn : Drawn shared call) :
    (∀ following ∈ next, Drawn after following) ∧
      ∀ other, Drawn shared other → Drawn after other := by
  cases proceeds with
  | staged catalog update =>
    refine ⟨fun following member => ?_, fun other known => ⟨known.uuid, known.drop⟩⟩
    cases member
    exact ⟨drawn.uuid, drawn.drop⟩
  | deleted catalog drop path paths =>
    refine ⟨fun following member => ?_, fun other known => ⟨known.uuid, known.drop⟩⟩
    cases member
    exact ⟨drawn.uuid, drawn.drop⟩
  | failed => exact ⟨by simp, fun other known => known⟩
  | cached => exact ⟨by simp, fun other known => ⟨known.uuid, known.drop⟩⟩
  | dropped => exact ⟨by simp, fun other known => ⟨known.uuid, known.drop⟩⟩
  | _ =>
    refine ⟨fun following member => ?_, fun other known => ⟨known.uuid, known.drop⟩⟩
    cases member
    exact .of_silent rfl rfl

end Steps

/-- The invariant of clean runs. -/
theorem keeps (table : String) : Interleaving.Keeps (system table)
    (fun shared => Clean table shared → Sound table shared)
    (fun shared call => Drawn shared call ∧ (Clean table shared → CallSound table shared call))
    Apart where
  symm := Apart.symm
  begin request {shared} sound := by
    have begins := begin_begins table request shared
    refine ⟨fun clean => (begins.sound (sound (begins.clean clean))).1, fun call member => ?_⟩
    exact ⟨begins.drawn.1 call member,
      fun clean => (begins.sound (sound (begins.clean clean))).2 call member⟩
  beginOther request {shared other} sound there := by
    have begins := begin_begins table request shared
    refine ⟨⟨begins.drawn.2 other there.1, fun clean => ?_⟩,
      begins.apart there.1.uuid there.1.drop⟩
    exact begins.others (there.2 (begins.clean clean))
  advance environment {shared call} sound here := by
    have proceeds := advance_proceeds call shared
    have whole := fun clean : Clean table (advance call shared).1 =>
      proceeds.sound clean (sound (proceeds.clean clean)) (here.2 (proceeds.clean clean))
    exact ⟨fun clean => (whole clean).1, fun next member =>
      ⟨(proceeds.drawn here.1).1 next member, fun clean => (whole clean).2 next member⟩⟩
  advanceOther environment {shared call other} sound here there apart := by
    have proceeds := advance_proceeds call shared
    refine ⟨⟨(proceeds.drawn here.1).2 other there.1, fun clean => ?_⟩, proceeds.apart apart⟩
    exact proceeds.others clean (here.2 (proceeds.clean clean)) (there.2 (proceeds.clean clean))
      apart

/-- In every clean run of any number of instances, each accepted update was computed on the latest
version and left the next one. -/
theorem fileCommits_onLatest (table : String) (events : List Event)
    (clean : Clean table (runFile table events).shared) :
    SingleChain table (runFile table events).shared := by
  have empty : Sound table .empty :=
    { latest := by simp [Shared.empty]
      contiguous := fun _ => OnlyFirst.contiguous fun path member =>
        absurd member (AList.notMem_empty path)
      bounded := fun path member => absurd member (AList.notMem_empty path)
      caches := fun _ _ cached => nomatch cached
      drops := by simp [Shared.empty] }
  have start : Interleaving.Holds (fun shared => Clean table shared → Sound table shared)
      (fun shared call => Drawn shared call ∧ (Clean table shared → CallSound table shared call))
      Apart (⟨.empty, []⟩ : Interleaving.State Shared Call) :=
    ⟨fun _ => empty, fun call member => absurd member List.not_mem_nil, .nil⟩
  exact ⟨((Interleaving.holds_run (keeps table) start events).shared clean).latest⟩

/-! ### A changed encoding -/

/-- An instance creates the table. -/
def createAlone (catalog : Nat) : List Event :=
  [.call (.createTable catalog (longTable .v2) []), .advance 0 (), .advance 0 ()]

def loadAlone (catalog : Nat) : List Event :=
  [.call (.loadTabular catalog []), .advance 0 (), .advance 0 ()]

def updateAlone (catalog : Nat) (updates : List TableUpdate) (now : Int) (uuid : Uuid) :
    List Event :=
  [.call (.updateTable catalog ⟨[], updates⟩ now uuid), .advance 0 (), .advance 0 (), .advance 0 ()]

/-- Compressed metadata is asked for. -/
def compress : TableUpdate :=
  .setProperties (AList.singleton "write.metadata.compression-codec" "gzip")

section Decidable

instance (table : String) (files : Files) (n : Nat) : Decidable (Taken table files n) :=
  decidable_of_iff ((⟨table, .versioned n false⟩ : MetadataPath) ∈ files ∨
    (⟨table, .versioned n true⟩ : MetadataPath) ∈ files)
    ⟨fun either => either.elim (fun member => ⟨false, member⟩) fun member => ⟨true, member⟩,
      fun ⟨gzipped, member⟩ => by cases gzipped; exacts [.inl member, .inr member]⟩

instance (table : String) (accepted : Accepted) : Decidable (Undisturbed table accepted) :=
  decidable_of_iff ((accepted.found.lookup accepted.update.previous.path).map (·.metadata) =
      some accepted.update.previous.metadata ∧
    ¬ Taken table accepted.found accepted.target.version ∧
    accepted.dropping = [] ∧ accepted.target.location = table)
    ⟨fun ⟨kept, free, idle, located⟩ => ⟨kept, free, idle, located⟩,
      fun ⟨kept, free, idle, located⟩ => ⟨kept, free, idle, located⟩⟩

instance (table : String) (files : Files) : Decidable (NoVersion table files) :=
  inferInstanceAs (Decidable (∀ path ∈ files.keys, path.location = table →
    path.isVersioned = false))

instance (table : String) (shared : Shared) : Decidable (Clean table shared) :=
  decidable_of_iff ((∀ accepted ∈ shared.accepted, Undisturbed table accepted) ∧
    ∀ found ∈ shared.created, NoVersion table found)
    ⟨fun ⟨accepted, created⟩ => ⟨accepted, created⟩, fun ⟨accepted, created⟩ => ⟨accepted, created⟩⟩

end Decidable

/-- Two instances take turns, and the encoding changes in between. -/
theorem fileCommits_onLatest_turns :
    SingleChain "s3://warehouse/table" (runFile "s3://warehouse/table" (createAlone 0 ++
      loadAlone 1 ++ updateAlone 1 [] 1 ⟨1⟩ ++ loadAlone 0 ++
      updateAlone 0 [compress] 2 ⟨2⟩)).shared :=
  fileCommits_onLatest "s3://warehouse/table" (createAlone 0 ++ loadAlone 1 ++
    updateAlone 1 [] 1 ⟨1⟩ ++ loadAlone 0 ++ updateAlone 0 [compress] 2 ⟨2⟩) (by decide +kernel)

/-- An update that compresses the metadata, and one from an older cache that does not, both take
the first number. -/
theorem compressed_version_bypassed :
    ¬ SingleChain "s3://warehouse/table" (runFile "s3://warehouse/table" (createAlone 0 ++
      loadAlone 1 ++ updateAlone 0 [compress] 1 ⟨1⟩ ++ updateAlone 1 [] 2 ⟨2⟩)).shared := by
  intro chain
  have bypassed : ∃ accepted ∈ (runFile "s3://warehouse/table" (createAlone 0 ++ loadAlone 1 ++
        updateAlone 0 [compress] 1 ⟨1⟩ ++ updateAlone 1 [] 2 ⟨2⟩)).shared.accepted,
      metadataLocation (filesBelow "s3://warehouse/table" accepted.found) ≠
        some accepted.update.previous.path := by
    decide +kernel
  obtain ⟨accepted, member, other⟩ := bypassed
  exact other ((chain.onLatest accepted member).before.found _ (.refl _))

end IcebergRust.FileCatalog

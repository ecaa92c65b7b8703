import IcebergRust.Table.ManifestListWriter
import IcebergRust.Table.Written
import Mathlib.Algebra.Order.Group.Multiset

/-!
# The files of a manifest

Which files a manifest holds and which it marks as removed, independent of how a format
version stores them, and what writing, rewriting, filtering and taking apart a manifest
does to them.

* `DataFile.identity` drops what a rewrite may change of a file: its partition tuple and
  its bounds, which are encoded again, and its first row id, which is inherited.
* `liveFiles` and `deletedFiles` are the multisets of a manifest's files by status.
-/

namespace IcebergRust

open Fallible

variable {V : Type}

namespace DataFile

/-- What a format version keeps of a file whichever manifest it is in. -/
def identity (version : FormatVersion) (file : DataFile V) : DataFile V :=
  { file.toVersion version with
    partition := ⟨[]⟩, lowerBounds := none, upperBounds := none, firstRowId := none }

@[simp] theorem identity_filePath (version : FormatVersion) (file : DataFile V) :
    (file.identity version).filePath = file.filePath := by
  cases version <;> rfl

@[simp] theorem identity_toVersion (version : FormatVersion) (file : DataFile V) :
    (file.toVersion version).identity version = file.identity version := by
  cases version <;> rfl

@[simp] theorem identity_partition (version : FormatVersion) (file : DataFile V)
    (partition : Struct V) :
    ({ file with partition } : DataFile V).identity version = file.identity version := by
  cases version <;> rfl

@[simp] theorem identity_firstRowId (version : FormatVersion) (file : DataFile V)
    (firstRowId : Option Int) :
    ({ file with firstRowId } : DataFile V).identity version = file.identity version := by
  cases version <;> rfl

theorem tryFromStored_identity [PartitionValue V] {file read : DataFile V} {schema : Schema}
    {spec : PartitionSpec} (run : file.tryFromStored schema spec = .ok read)
    (version : FormatVersion) : read.identity version = file.identity version := by
  simp only [tryFromStored, bind_eq_ok] at run
  obtain ⟨partition, -, lower, -, upper, -, run⟩ := run
  injection run with same
  rw [← same]
  cases version <;> rfl

end DataFile

/-- Two entries of one file that agree on whether it is live. -/
structure SameFile (version : FormatVersion) (a b : ManifestEntry V) : Prop where
  live : a.live = b.live
  file : a.dataFile.identity version = b.dataFile.identity version

variable {version : FormatVersion} {first second : List (ManifestEntry V)}

theorem RecordOf.sameFile {entry stored : ManifestEntry V} (record : RecordOf entry stored)
    (written : entry.formatVersion = version) : SameFile version stored entry := by
  obtain ⟨partition, rfl⟩ := record
  refine ⟨storedAs_live entry partition, ?_⟩
  rw [storedAs_dataFile, written]
  simp

/-! ### The files of entries -/

/-- The files of the entries `p` holds of. -/
def filesWhere (version : FormatVersion) (p : ManifestEntry V → Bool)
    (entries : List (ManifestEntry V)) : Multiset (DataFile V) :=
  Multiset.ofList ((entries.filter p).map fun entry => entry.dataFile.identity version)

/-- The files that are added or existing. -/
def liveFiles (version : FormatVersion) (entries : List (ManifestEntry V)) :
    Multiset (DataFile V) :=
  filesWhere version (·.live) entries

/-- The files that are marked as removed. -/
def deletedFiles (version : FormatVersion) (entries : List (ManifestEntry V)) :
    Multiset (DataFile V) :=
  filesWhere version (!·.live) entries

/-- A file is one of the paths. -/
def named (paths : List String) (file : DataFile V) : Prop := file.filePath ∈ paths

instance (paths : List String) : DecidablePred (@named V paths) := fun file =>
  inferInstanceAs (Decidable (file.filePath ∈ paths))

theorem filesWhere_append (version : FormatVersion) (p : ManifestEntry V → Bool)
    (first second : List (ManifestEntry V)) :
    filesWhere version p (first ++ second) =
      filesWhere version p first + filesWhere version p second := by
  simp [filesWhere]

theorem filesWhere_cons (version : FormatVersion) (p : ManifestEntry V → Bool)
    (entry : ManifestEntry V) (entries : List (ManifestEntry V)) :
    filesWhere version p (entry :: entries) =
      (if p entry then {entry.dataFile.identity version} else 0) + filesWhere version p entries := by
  by_cases holds : p entry <;> simp [filesWhere, holds, ← Multiset.cons_coe]

@[simp] theorem liveFiles_nil (version : FormatVersion) :
    liveFiles version ([] : List (ManifestEntry V)) = 0 := rfl

@[simp] theorem deletedFiles_nil (version : FormatVersion) :
    deletedFiles version ([] : List (ManifestEntry V)) = 0 := rfl

theorem liveFiles_append (version : FormatVersion) (first second : List (ManifestEntry V)) :
    liveFiles version (first ++ second) = liveFiles version first + liveFiles version second :=
  filesWhere_append version _ first second

theorem deletedFiles_append (version : FormatVersion) (first second : List (ManifestEntry V)) :
    deletedFiles version (first ++ second) =
      deletedFiles version first + deletedFiles version second :=
  filesWhere_append version _ first second

/-- Entries of the same files in order have the same files. -/
theorem filesWhere_congr {p : ManifestEntry V → Bool}
    (congruent : ∀ a b, SameFile version a b → p a = p b)
    (same : List.Forall₂ (SameFile version) first second) :
    filesWhere version p first = filesWhere version p second := by
  induction same with
  | nil => rfl
  | cons here _ ih =>
    rw [filesWhere_cons, filesWhere_cons, congruent _ _ here, here.file, ih]

theorem liveFiles_congr (same : List.Forall₂ (SameFile version) first second) :
    liveFiles version first = liveFiles version second :=
  filesWhere_congr (fun _ _ here => here.live) same

theorem deletedFiles_congr (same : List.Forall₂ (SameFile version) first second) :
    deletedFiles version first = deletedFiles version second :=
  filesWhere_congr (fun _ _ here => by rw [here.live]) same

theorem filesWhere_filter (version : FormatVersion) (p q : ManifestEntry V → Bool)
    (entries : List (ManifestEntry V)) :
    filesWhere version p (entries.filter q) = filesWhere version (fun e => q e && p e) entries := by
  simp [filesWhere, List.filter_filter, Bool.and_comm]

theorem liveFiles_filter_live (version : FormatVersion) (entries : List (ManifestEntry V)) :
    liveFiles version (entries.filter (·.live)) = liveFiles version entries := by
  simp [liveFiles, filesWhere_filter]

theorem deletedFiles_filter_live (version : FormatVersion) (entries : List (ManifestEntry V)) :
    deletedFiles version (entries.filter (·.live)) = 0 := by
  simp [deletedFiles, filesWhere]

theorem live_of_sameFile (same : List.Forall₂ (SameFile version) first second)
    (live : ∀ entry ∈ second, entry.live = true) : ∀ entry ∈ first, entry.live = true := by
  induction same with
  | nil => exact fun _ member => absurd member List.not_mem_nil
  | cons here _ ih =>
    obtain ⟨lives, rest⟩ := List.forall_mem_cons.mp live
    exact List.forall_mem_cons.mpr ⟨here.live.trans lives, ih rest⟩

/-- The entries of a manifest in the store; none if there is no such manifest. -/
def Store.entriesAt (store : Store V) (path : String) : List (ManifestEntry V) :=
  ((store.manifest path).map (·.entries)).getD []

theorem Store.entriesAt_of_getManifest {store : Store V} {path : String} {file : ManifestFile V}
    (fetched : store.getManifest path = .ok file) : store.entriesAt path = file.entries := by
  simp only [getManifest] at fetched
  split at fetched
  · rename_i found
    cases fetched
    simp [entriesAt, found]
  · cases fetched

/-! ### Writing and rewriting -/

variable [PartitionValue V]

theorem ManifestFile.read_sameFile {file : ManifestFile V} {entries : List (ManifestEntry V)}
    (run : file.read = .ok entries) (version : FormatVersion) :
    List.Forall₂ (SameFile version) entries file.entries := by
  have related := mapM_eq_ok.mp run
  refine (related.imp fun stored entry decoded => ?_).flip
  obtain ⟨dataFile, decodes, same⟩ := bind_eq_ok.mp decoded
  injection same with same
  subst same
  exact ⟨rfl, DataFile.tryFromStored_identity decodes version⟩

namespace ManifestWriter

variable {metadata : TableMetadata} {version : FormatVersion} {entries : List (ManifestEntry V)}

omit [PartitionValue V] in
theorem records_sameFile {stored : List (ManifestEntry V)}
    (records : List.Forall₂ RecordOf entries stored)
    (written : ∀ entry ∈ entries, entry.formatVersion = version) :
    List.Forall₂ (SameFile version) stored entries := by
  induction records with
  | nil => exact .nil
  | cons record records ih =>
    exact .cons (record.sameFile (written _ List.mem_cons_self))
      (ih fun entry member => written entry (List.mem_cons_of_mem _ member))

variable {begun : ManifestWriter V} {context : FilterContext V} {resolved : List (ManifestEntry V)}

/-- Filling a manifest adds the files of the entries. -/
theorem fill_files {filled : ManifestWriter V}
    (run : entries.foldlM (append metadata) begun = .ok filled)
    (versions : begun.avro.formatVersion = version) :
    liveFiles version filled.file.entries =
        liveFiles version begun.file.entries + liveFiles version entries ∧
      deletedFiles version filled.file.entries =
        deletedFiles version begun.file.entries + deletedFiles version entries := by
  obtain ⟨written, stored, partitions, records, rfl⟩ := fill_spec run
  have same := records_sameFile records fun entry member => (written entry member).trans versions
  constructor
  · rw [liveFiles_append, liveFiles_congr same]
  · rw [deletedFiles_append, deletedFiles_congr same]

/-- A rewritten manifest holds the live files of its source. -/
theorem fromExisting_files {manifest : ManifestListEntry V} {snapshotId : Int} {avro : EntrySchema}
    (run : fromExisting entries manifest snapshotId avro metadata = .ok begun) :
    liveFiles metadata.formatVersion begun.file.entries =
        liveFiles metadata.formatVersion entries ∧
      deletedFiles metadata.formatVersion begun.file.entries = 0 := by
  obtain ⟨stored, state, records, -, rfl, -, -⟩ := fromExisting_spec run
  have kept : List.Forall₂ (SameFile metadata.formatVersion)
      ((entries.filter (·.live)).map (keptEntry manifest metadata)) (entries.filter (·.live)) := by
    rw [List.forall₂_map_left_iff, List.forall₂_same]
    intro entry member
    exact ⟨(List.mem_filter.mp member).2.symm, rfl⟩
  have same := records_sameFile records fun entry member => by
    obtain ⟨source, -, rfl⟩ := List.mem_map.mp member
    rfl
  constructor
  · rw [liveFiles_congr same, liveFiles_congr kept, liveFiles_filter_live]
  · rw [deletedFiles_congr same, deletedFiles_congr kept, deletedFiles_filter_live]

/-! ### Filtering -/

section

omit [PartitionValue V]

theorem inheritFiles_sameFile {content : ManifestContent} {next : Option Int}
    {files : List (DataFile V)} (run : inheritFiles content next entries = .ok files) :
    List.Forall₂ (SameFile version) (List.zipWith (resolvedEntry context) entries files) entries := by
  induction entries generalizing next files with
  | nil =>
    cases run
    exact .nil
  | cons entry entries ih =>
    simp only [inheritFiles, bind_eq_ok] at run
    obtain ⟨⟨later, file⟩, first, rest, others, run⟩ := run
    cases run
    refine .cons ⟨rfl, ?_⟩ (ih others)
    rw [show (resolvedEntry context entry file).dataFile = file from rfl,
      inheritFirstRowId_file first]
    exact DataFile.identity_firstRowId _ _ _

@[simp] theorem named_identity {paths : List String} {entry : ManifestEntry V} :
    named paths (entry.dataFile.identity version) ↔ isNamed paths entry = true := by
  simp [named, isNamed]

/-- The files of live entries. -/
theorem liveFiles_of_live (live : ∀ entry ∈ entries, entry.live = true) :
    liveFiles version entries =
      Multiset.ofList (entries.map fun entry => entry.dataFile.identity version) := by
  rw [liveFiles, filesWhere, List.filter_eq_self.mpr live]

end

/-- What removing files from those of a manifest leaves: in the manifest that is written, and to the
caller.  The tombstones stay in the manifest exactly if it has an older partition spec. -/
structure Removes (version : FormatVersion) (oldSpec : Prop) [Decidable oldSpec]
    (paths : List String) (source : Multiset (DataFile V)) (written left : List (ManifestEntry V)) :
    Prop where
  kept : liveFiles version written = source.filter (¬ named paths ·)
  tombstones : deletedFiles version written = if oldSpec then source.filter (named paths) else 0
  gone : liveFiles version left = 0
  left : deletedFiles version left = if oldSpec then 0 else source.filter (named paths)

section

omit [PartitionValue V]

theorem removes_nil (version : FormatVersion) (oldSpec : Prop) [Decidable oldSpec]
    (paths : List String) : Removes version oldSpec paths (0 : Multiset (DataFile V)) [] [] := by
  constructor <;> simp

theorem Removes.append {oldSpec : Prop} [Decidable oldSpec] {paths : List String}
    {first second : Multiset (DataFile V)} {written written' left left' : List (ManifestEntry V)}
    (one : Removes version oldSpec paths first written left)
    (two : Removes version oldSpec paths second written' left') :
    Removes version oldSpec paths (first + second) (written ++ written') (left ++ left') := by
  constructor
  · rw [liveFiles_append, one.kept, two.kept, Multiset.filter_add]
  · rw [deletedFiles_append, one.tombstones, two.tombstones, Multiset.filter_add]
    split <;> simp
  · rw [liveFiles_append, one.gone, two.gone, add_zero]
  · rw [deletedFiles_append, one.left, two.left, Multiset.filter_add]
    split <;> simp

/-- A resolved entry is either kept or leaves a tombstone. -/
theorem removes_one (context : FilterContext V) (version : FormatVersion)
    (entry : ManifestEntry V) :
    Removes version (context.oldSpec = true) context.filter {entry.dataFile.identity version}
      (rewritten context entry) (leftOver context entry) := by
  cases hit : isNamed context.filter entry <;> cases old : context.oldSpec <;> constructor <;>
    simp [rewritten, leftOver, hit, old, liveFiles, deletedFiles, filesWhere, tombstoneOf,
      ManifestEntry.live, Multiset.filter_singleton]

theorem removes_resolved (context : FilterContext V) (version : FormatVersion)
    (live : ∀ entry ∈ resolved, entry.live = true) :
    Removes version (context.oldSpec = true) context.filter (liveFiles version resolved)
      (resolved.flatMap (rewritten context)) (resolved.flatMap (leftOver context)) := by
  induction resolved with
  | nil => exact removes_nil _ _ _
  | cons entry resolved ih =>
    obtain ⟨lives, rest⟩ := List.forall_mem_cons.mp live
    have whole : liveFiles version (entry :: resolved) =
        {entry.dataFile.identity version} + liveFiles version resolved := by
      rw [liveFiles, filesWhere_cons, if_pos lives]
      rfl
    rw [whole, List.flatMap_cons, List.flatMap_cons]
    exact (removes_one context version entry).append (ih rest)

end

/-- The `i32` counts a manifest gets when files are removed from it are not positive. -/
def Vanishes (oldSpec : Prop) [Decidable oldSpec] (paths : List String)
    (source : Multiset (DataFile V)) : Prop :=
  wrapI32 (source.filter (¬ named paths ·)).card ≤ 0 ∧
    (oldSpec → wrapI32 (source.filter (named paths)).card ≤ 0)

instance (oldSpec : Prop) [Decidable oldSpec] (paths : List String)
    (source : Multiset (DataFile V)) : Decidable (Vanishes oldSpec paths source) :=
  inferInstanceAs (Decidable (_ ∧ (_ → _)))

section

omit [PartitionValue V]

/-- The entries left to the caller are tombstones of named files, of a manifest of the current
spec. -/
theorem Removes.mem_left {oldSpec : Prop} [Decidable oldSpec] {paths : List String}
    {source : Multiset (DataFile V)} {written left : List (ManifestEntry V)}
    (removes : Removes version oldSpec paths source written left) {entry : ManifestEntry V}
    (member : entry ∈ left) :
    entry.live = false ∧ ¬ oldSpec ∧
      entry.dataFile.identity version ∈ source.filter (named paths) := by
  have dead : entry.live = false := by
    by_contra alive
    have present : entry.dataFile.identity version ∈ liveFiles version left :=
      Multiset.mem_coe.mpr (List.mem_map_of_mem (List.mem_filter.mpr ⟨member, by simpa using alive⟩))
    rw [removes.gone] at present
    exact absurd present (Multiset.notMem_zero _)
  have present : entry.dataFile.identity version ∈ deletedFiles version left :=
    Multiset.mem_coe.mpr (List.mem_map_of_mem (List.mem_filter.mpr ⟨member, by simp [dead]⟩))
  rw [removes.left] at present
  split at present
  · exact absurd present (Multiset.notMem_zero _)
  · rename_i current
    exact ⟨dead, current, present⟩

theorem resolved_live {stats : FilteredManifestStats V}
    (result : FilterResult context metadata entries resolved begun stats) :
    (∀ entry ∈ resolved, entry.live = true) ∧
      ∀ version, liveFiles version resolved = liveFiles version entries := by
  obtain ⟨files, inherits, rfl⟩ := result.inherits
  constructor
  · have same : List.Forall₂ (SameFile .v1)
        (List.zipWith (resolvedEntry context) (entries.filter (·.live)) files) _ :=
      inheritFiles_sameFile inherits
    exact live_of_sameFile same fun entry member => (List.mem_filter.mp member).2
  · intro version
    rw [liveFiles_congr (inheritFiles_sameFile inherits), liveFiles_filter_live]

theorem rewritten_version
    (versions : ∀ entry ∈ resolved, entry.formatVersion = context.formatVersion) :
    ∀ entry ∈ resolved.flatMap (rewritten context), entry.formatVersion = context.formatVersion := by
  intro entry member
  obtain ⟨source, within, written⟩ := List.mem_flatMap.mp member
  have version := versions source within
  simp only [rewritten] at written
  split at written
  · split at written
    · obtain rfl := List.mem_singleton.mp written
      exact version
    · exact absurd written List.not_mem_nil
  · obtain rfl := List.mem_singleton.mp written
    exact version

theorem resolved_version {files : List (DataFile V)} :
    ∀ entry ∈ List.zipWith (resolvedEntry context) entries files,
      entry.formatVersion = context.formatVersion := by
  intro entry member
  rw [← List.map_uncurry_zip_eq_zipWith] at member
  obtain ⟨⟨source, file⟩, -, rfl⟩ := List.mem_map.mp member
  rfl

theorem card_filter_named (live : ∀ entry ∈ entries, entry.live = true) (paths : List String) :
    ((liveFiles version entries).filter (named paths)).card =
        (entries.filter fun entry => isNamed paths entry).length ∧
      ((liveFiles version entries).filter (¬ named paths ·)).card =
        (entries.filter fun entry => !isNamed paths entry).length := by
  rw [liveFiles_of_live live]
  simp only [Multiset.filter_coe, List.filter_map, Multiset.coe_card, List.length_map]
  constructor <;> congr 2 <;> funext entry <;> simp

end

theorem wrapI32_zero : wrapI32 0 = 0 := Int.zero_bmod

omit [PartitionValue V] in
theorem hasFiles_eq_false_iff {row : ManifestListEntry V} {existing deleted : Int}
    (added : row.addedFilesCount = some 0) (kept : row.existingFilesCount = some existing)
    (gone : row.deletedFilesCount = some deleted) :
    ManifestListWriter.hasFiles row = false ↔ existing ≤ 0 ∧ deleted ≤ 0 := by
  simp [ManifestListWriter.hasFiles, added, kept, gone]

/-- Filtering a manifest removes the named files from it. -/
theorem fromExistingWithFilter_files {manifest : ManifestListEntry V} {filter : List String}
    {snapshotId : Int} {avro : EntrySchema} {source : Option (Schema × PartitionSpec)}
    {stats : FilteredManifestStats V}
    (run : fromExistingWithFilter entries manifest filter snapshotId avro metadata source =
      .ok (begun, stats)) :
    Removes metadata.formatVersion (manifest.partitionSpecId ≠ metadata.defaultSpecId) filter
        (liveFiles metadata.formatVersion entries) begun.file.entries stats.filteredEntries ∧
      (ManifestListWriter.hasFiles begun.manifest = false ↔
        Vanishes (manifest.partitionSpecId ≠ metadata.defaultSpecId) filter
          (liveFiles metadata.formatVersion entries)) := by
  obtain ⟨context, resolved, of, -, result⟩ := fromExistingWithFilter_spec run
  obtain ⟨live, files⟩ := resolved_live result
  have spec : context.oldSpec = true ↔ manifest.partitionSpecId ≠ metadata.defaultSpecId := by
    rw [of.spec, decide_eq_true_iff]
  have removes := removes_resolved context metadata.formatVersion live
  rw [files, of.paths] at removes
  have written : ∀ entry ∈ resolved, entry.formatVersion = context.formatVersion := by
    obtain ⟨inherited, -, rfl⟩ := result.inherits
    exact resolved_version
  have same : List.Forall₂ (SameFile metadata.formatVersion) begun.file.entries
      (resolved.flatMap (rewritten context)) :=
    records_sameFile result.records fun entry member =>
      (rewritten_version written entry member).trans of.version
  constructor
  · constructor
    · rw [liveFiles_congr same, removes.kept]
    · rw [deletedFiles_congr same, removes.tombstones]
      exact if_congr spec rfl rfl
    · rw [result.leftOver, removes.gone]
    · rw [result.leftOver, removes.left]
      exact if_congr spec rfl rfl
  · obtain ⟨partitions, state, row, kept, gone⟩ := result.row
    obtain ⟨namedCount, keptCount⟩ : _ ∧
        ((liveFiles metadata.formatVersion resolved).filter (¬ named filter ·)).card = _ :=
      card_filter_named live filter
    rw [files] at namedCount keptCount
    rw [of.paths] at kept gone
    rw [Vanishes, namedCount, keptCount, ← spec]
    have counts : ManifestListWriter.hasFiles begun.manifest = false ↔ _ := hasFiles_eq_false_iff
      (congrArg (·.addedFilesCount) row) (congrArg (·.existingFilesCount) row)
      (congrArg (·.deletedFilesCount) row)
    rw [counts, kept, gone]
    refine and_congr_right fun _ => ?_
    cases context.oldSpec with
    | false => simp [wrapI32_zero]
    | true => simp

end ManifestWriter

/-! ### Taking apart -/

namespace ManifestListWriter

/-- A filter of the split path names the file of an entry. -/
def filters (filter : Option (List String)) (entry : ManifestEntry V) : Bool :=
  filter.any fun paths => ManifestWriter.isNamed paths entry

/-- What the split path keeps of an entry. -/
def splitKept (row : ManifestListEntry V) (filter : Option (List String))
    (entry : ManifestEntry V) : List (ManifestEntry V) :=
  if entry.live && !filters filter entry then
    [{ ManifestWriter.resolveInherited row entry with status := .existing }]
  else []

/-- The tombstone the split path leaves of an entry. -/
def splitTombstone (row : ManifestListEntry V) (filter : Option (List String))
    (entry : ManifestEntry V) : List (ManifestEntry V) :=
  if entry.live && filters filter entry then
    [{ ManifestWriter.resolveInherited row entry with status := .deleted }]
  else []

section

omit [PartitionValue V]

theorem splitResolve_eq (row : ManifestListEntry V) (filter : Option (List String))
    (state : FilteredManifestStats V × List (ManifestEntry V)) (entry : ManifestEntry V) :
    (splitResolve row filter state entry).2 = state.2 ++ splitKept row filter entry ∧
      (splitResolve row filter state entry).1.filteredEntries =
        state.1.filteredEntries ++ splitTombstone row filter entry := by
  by_cases deleted : entry.status = .deleted
  · simp [splitResolve, splitKept, splitTombstone, ManifestEntry.live, deleted]
  · by_cases hit : filters filter entry = true
    · have found : (filter.any fun paths => decide (entry.dataFile.filePath ∈ paths)) = true := hit
      simp [splitResolve, splitKept, splitTombstone, ManifestEntry.live, deleted, hit, found,
        FilteredManifestStats.remove]
    · have missed : ¬ (filter.any fun paths => decide (entry.dataFile.filePath ∈ paths)) = true :=
        hit
      simp [splitResolve, splitKept, splitTombstone, ManifestEntry.live, deleted, hit, missed]

theorem splitResolve_fold (row : ManifestListEntry V) (filter : Option (List String))
    (entries : List (ManifestEntry V)) (state : FilteredManifestStats V × List (ManifestEntry V)) :
    (entries.foldl (splitResolve row filter) state).2 =
        state.2 ++ entries.flatMap (splitKept row filter) ∧
      (entries.foldl (splitResolve row filter) state).1.filteredEntries =
        state.1.filteredEntries ++ entries.flatMap (splitTombstone row filter) := by
  induction entries generalizing state with
  | nil => simp
  | cons entry entries ih =>
    obtain ⟨kept, gone⟩ := splitResolve_eq row filter state entry
    obtain ⟨rest, others⟩ := ih (splitResolve row filter state entry)
    rw [List.foldl_cons, rest, others, kept, gone]
    simp

open ManifestWriter

/-- Taking a manifest apart separates its live entries from tombstones of the named files. -/
theorem split_removes (version : FormatVersion) (row : ManifestListEntry V)
    (filter : Option (List String)) (entries : List (ManifestEntry V)) :
    ManifestWriter.Removes version False (filter.getD []) (liveFiles version entries)
      (entries.flatMap (splitKept row filter)) (entries.flatMap (splitTombstone row filter)) := by
  induction entries with
  | nil => exact removes_nil _ _ _
  | cons entry entries ih =>
    rw [List.flatMap_cons, List.flatMap_cons, ← List.singleton_append, liveFiles_append]
    refine ManifestWriter.Removes.append ?_ ih
    have hits : filters filter entry = isNamed (filter.getD []) entry := by
      cases filter <;> simp [filters, isNamed]
    cases status : entry.status <;> cases hit : isNamed (filter.getD []) entry <;>
      constructor <;>
      simp [splitKept, splitTombstone, hits, status, hit, liveFiles, deletedFiles, filesWhere,
        ManifestEntry.live, resolveInherited, Multiset.filter_singleton]

end

end ManifestListWriter

end IcebergRust

import IcebergRust.Table.SequenceNumbers
import Mathlib.Data.Multiset.Bind

/-!
# Where the files of a list come from

The live files of a list, each with the sequence number it has in it.

* `originsOf` are those of the entries of a manifest; whether an entry has its own sequence
  number or inherits the one of the row makes no difference.
* `Assembly.origins` counts all files of a list under construction.  In versions 2 and 3 no
  step adds a file or changes the sequence number of one (`AssemblyStep.origins_le`), so each
  file of a finished list was in the old one under the same number, or is new.
-/

namespace IcebergRust

open Fallible ManifestWriter

variable {V : Type}

/-! ### The files of a manifest -/

/-- The live files of entries under a row, with their sequence numbers. -/
def originsOf (version : FormatVersion) (inherited : Int) (entries : List (ManifestEntry V)) :
    Multiset (DataFile V × Int) :=
  Multiset.ofList ((entries.filter (·.live)).map fun entry =>
    (entry.dataFile.identity version, entry.sequenceIn inherited))

/-- Entries of one file and one sequence number, under two rows. -/
structure SameOrigin (version : FormatVersion) (above below : Int) (a b : ManifestEntry V) :
    Prop where
  file : SameFile version a b
  sequence : a.live = true → a.sequenceIn above = b.sequenceIn below

@[simp] theorem originsOf_nil (version : FormatVersion) (inherited : Int) :
    originsOf version inherited ([] : List (ManifestEntry V)) = 0 := rfl

theorem originsOf_append (version : FormatVersion) (inherited : Int)
    (first second : List (ManifestEntry V)) :
    originsOf version inherited (first ++ second) =
      originsOf version inherited first + originsOf version inherited second := by
  simp [originsOf]

theorem originsOf_cons (version : FormatVersion) (inherited : Int) (entry : ManifestEntry V)
    (entries : List (ManifestEntry V)) :
    originsOf version inherited (entry :: entries) =
      (if entry.live then {(entry.dataFile.identity version, entry.sequenceIn inherited)} else 0) +
        originsOf version inherited entries := by
  by_cases live : entry.live <;> simp [originsOf, live, ← Multiset.cons_coe]

variable {version : FormatVersion} {entries : List (ManifestEntry V)}

theorem originsOf_congr {above below : Int} {first second : List (ManifestEntry V)}
    (same : List.Forall₂ (SameOrigin version above below) first second) :
    originsOf version above first = originsOf version below second := by
  induction same with
  | nil => rfl
  | @cons a b _ _ here _ ih =>
    rw [originsOf_cons, originsOf_cons, ih, here.file.live]
    by_cases live : b.live = true
    · rw [if_pos live, if_pos live, here.file.file, here.sequence (here.file.live.trans live)]
    · rw [if_neg live, if_neg live]

theorem originsOf_filter_live (version : FormatVersion) (inherited : Int)
    (entries : List (ManifestEntry V)) :
    originsOf version inherited (entries.filter (·.live)) = originsOf version inherited entries := by
  simp [originsOf, List.filter_filter]

theorem originsOf_eq_zero {inherited : Int} (dead : ∀ entry ∈ entries, entry.live = false) :
    originsOf version inherited entries = 0 := by
  rw [originsOf, List.filter_eq_nil_iff.mpr fun entry member => by simp [dead entry member]]
  rfl

/-- The record of an entry has its file and sequence number. -/
theorem RecordOf.sameOrigin {inherited : Int} {entry stored : ManifestEntry V}
    (record : RecordOf entry stored) (written : entry.formatVersion = version)
    (versioned : version ≠ .v1) : SameOrigin version inherited inherited stored entry := by
  refine ⟨record.sameFile written, fun _ => ?_⟩
  obtain ⟨-, same⟩ := record.sequenceNumber (written ▸ versioned)
  rw [ManifestEntry.sequenceIn, same, ManifestEntry.sequenceIn]

theorem records_sameOrigin {inherited : Int} {stored : List (ManifestEntry V)}
    (records : List.Forall₂ RecordOf entries stored)
    (written : ∀ entry ∈ entries, entry.formatVersion = version) (versioned : version ≠ .v1) :
    originsOf version inherited stored = originsOf version inherited entries := by
  refine originsOf_congr ?_
  induction records with
  | nil => exact .nil
  | cons record records ih =>
    exact .cons (record.sameOrigin (written _ List.mem_cons_self) versioned)
      (ih fun entry member => written entry (List.mem_cons_of_mem _ member))

/-! ### Writing and rewriting -/

section Writing

variable [PartitionValue V] {metadata : TableMetadata} {entries : List (ManifestEntry V)}

theorem read_origins {file : ManifestFile V} (run : file.read = .ok entries)
    (version : FormatVersion) (inherited : Int) :
    originsOf version inherited entries = originsOf version inherited file.entries := by
  refine originsOf_congr ((mapM_eq_ok.mp run).imp fun stored entry decoded => ?_).flip
  obtain ⟨dataFile, decodes, same⟩ := bind_eq_ok.mp decoded
  cases same
  exact ⟨⟨rfl, DataFile.tryFromStored_identity decodes version⟩, fun _ => rfl⟩

variable {begun : ManifestWriter V}

/-- Filling a manifest adds the files of the entries, and keeps the sequence number of its row. -/
theorem fill_origins {filled : ManifestWriter V}
    (run : entries.foldlM (append metadata) begun = .ok filled)
    (versions : begun.avro.formatVersion = metadata.formatVersion)
    (versioned : metadata.formatVersion ≠ .v1) (inherited : Int) :
    originsOf metadata.formatVersion inherited filled.file.entries =
      originsOf metadata.formatVersion inherited begun.file.entries +
        originsOf metadata.formatVersion inherited entries := by
  obtain ⟨written, stored, partitions, records, rfl⟩ := fill_spec run
  rw [originsOf_append, records_sameOrigin records
    (fun entry member => (written entry member).trans versions) versioned]

theorem fill_sequence {filled : ManifestWriter V}
    (run : entries.foldlM (append metadata) begun = .ok filled) :
    filled.manifest.sequenceNumber = begun.manifest.sequenceNumber := by
  refine foldlM_invariant
    (fun writer => writer.manifest.sequenceNumber = begun.manifest.sequenceNumber) ?_ run rfl
  intro entry _ before after here appended
  obtain ⟨-, stored, summaries, -, rfl⟩ := append_spec appended
  exact here

omit [PartitionValue V] in
/-- An entry with everything it inherits from its row written out. -/
theorem sameOrigin_resolved {version : FormatVersion} {row : ManifestListEntry V}
    {entry resolved : ManifestEntry V} (file : SameFile version resolved entry)
    (sequence : resolved.sequenceNumber = (resolveInherited row entry).sequenceNumber)
    (inherited : Int) : SameOrigin version inherited row.sequenceNumber resolved entry := by
  refine ⟨file, fun _ => ?_⟩
  rw [ManifestEntry.sequenceIn, sequence]
  rfl

/-- A rewritten manifest holds the live files of its source under their sequence numbers. -/
theorem fromExisting_origins {manifest : ManifestListEntry V} {snapshotId : Int}
    {avro : EntrySchema} (run : fromExisting entries manifest snapshotId avro metadata = .ok begun)
    (versioned : metadata.formatVersion ≠ .v1) (inherited : Int) :
    originsOf metadata.formatVersion inherited begun.file.entries =
        originsOf metadata.formatVersion manifest.sequenceNumber entries ∧
      begun.manifest.sequenceNumber = nextSequenceNumber metadata := by
  obtain ⟨stored, state, records, -, rfl, -, row⟩ := fromExisting_spec run
  refine ⟨?_, by rw [row]; rfl⟩
  have kept : List.Forall₂ (SameOrigin metadata.formatVersion inherited manifest.sequenceNumber)
      ((entries.filter (·.live)).map (keptEntry manifest metadata)) (entries.filter (·.live)) := by
    rw [List.forall₂_map_left_iff, List.forall₂_same]
    intro entry member
    have live : (keptEntry manifest metadata entry).live = entry.live :=
      (List.mem_filter.mp member).2.symm
    exact sameOrigin_resolved ⟨live, rfl⟩ rfl inherited
  have written : ∀ entry ∈ (entries.filter (·.live)).map (keptEntry manifest metadata),
      entry.formatVersion = metadata.formatVersion := by
    intro entry member
    obtain ⟨source, -, rfl⟩ := List.mem_map.mp member
    rfl
  rw [records_sameOrigin records written versioned, originsOf_congr kept, originsOf_filter_live]

omit [PartitionValue V] in
theorem resolved_sameOrigin {context : FilterContext V} {version : FormatVersion}
    {files : List (DataFile V)}
    (same : List.Forall₂ (SameFile version) (List.zipWith (resolvedEntry context) entries files)
      entries) (inherited : Int) :
    List.Forall₂ (SameOrigin version inherited context.manifest.sequenceNumber)
      (List.zipWith (resolvedEntry context) entries files) entries := by
  induction entries generalizing files with
  | nil => exact .nil
  | cons entry entries ih =>
    cases files with
    | nil => cases same
    | cons file files =>
      obtain ⟨here, rest⟩ := List.forall₂_cons.mp same
      exact .cons (sameOrigin_resolved here rfl inherited) (ih rest)

omit [PartitionValue V] in
/-- The entries a filter writes for resolved ones. -/
theorem rewritten_origins (context : FilterContext V) (version : FormatVersion) (inherited : Int)
    {resolved : List (ManifestEntry V)} (live : ∀ entry ∈ resolved, entry.live = true) :
    originsOf version inherited (resolved.flatMap (rewritten context)) ≤
      originsOf version inherited resolved := by
  induction resolved with
  | nil => exact le_refl _
  | cons entry resolved ih =>
    obtain ⟨lives, rest⟩ := List.forall_mem_cons.mp live
    rw [List.flatMap_cons, originsOf_append, originsOf_cons, if_pos lives]
    refine add_le_add ?_ (ih rest)
    unfold rewritten
    split
    · split
      · rw [originsOf_eq_zero fun one member => by rw [List.mem_singleton.mp member]; rfl]
        exact Multiset.zero_le _
      · exact Multiset.zero_le _
    · exact le_refl _

/-- A filtered manifest holds some of the live files of its source, under their sequence
numbers. -/
theorem fromExistingWithFilter_origins {manifest : ManifestListEntry V} {filter : List String}
    {snapshotId : Int} {avro : EntrySchema} {source : Option (Schema × PartitionSpec)}
    {stats : FilteredManifestStats V}
    (run : fromExistingWithFilter entries manifest filter snapshotId avro metadata source =
      .ok (begun, stats)) (versioned : metadata.formatVersion ≠ .v1) (inherited : Int) :
    originsOf metadata.formatVersion inherited begun.file.entries ≤
        originsOf metadata.formatVersion manifest.sequenceNumber entries ∧
      begun.manifest.sequenceNumber = nextSequenceNumber metadata := by
  obtain ⟨context, resolved, of, -, result⟩ := fromExistingWithFilter_spec run
  obtain ⟨partitions, state, row, -⟩ := result.row
  refine ⟨?_, by rw [row]; rfl⟩
  obtain ⟨live, -⟩ := resolved_live result
  obtain ⟨files, inherits, rfl⟩ := result.inherits
  have written := rewritten_version
    (@resolved_version _ (entries.filter (·.live)) context files)
  have same : List.Forall₂ (SameOrigin metadata.formatVersion inherited manifest.sequenceNumber)
      (List.zipWith (resolvedEntry context) (entries.filter (·.live)) files)
      (entries.filter (·.live)) := by
    rw [← of.row]
    exact resolved_sameOrigin (inheritFiles_sameFile inherits) inherited
  rw [records_sameOrigin result.records
    (fun entry member => (written entry member).trans of.version) versioned]
  refine (rewritten_origins context _ inherited live).trans ?_
  rw [originsOf_congr same, originsOf_filter_live]

omit [PartitionValue V] in
/-- Taking a manifest apart leaves some of its live files, under their sequence numbers. -/
theorem split_origins (version : FormatVersion) (inherited : Int) (row : ManifestListEntry V)
    (paths : Option (List String)) (entries : List (ManifestEntry V)) :
    let parts := entries.foldl (ManifestListWriter.splitResolve row paths) (.empty, [])
    originsOf version inherited parts.2 ≤ originsOf version row.sequenceNumber entries ∧
      originsOf version inherited parts.1.filteredEntries = 0 := by
  intro parts
  obtain ⟨kept, gone⟩ := ManifestListWriter.splitResolve_fold row paths entries (.empty, [])
  constructor
  · rw [show parts.2 = _ from kept, List.nil_append]
    clear gone kept parts
    induction entries with
    | nil => exact le_refl _
    | cons entry entries ih =>
      rw [List.flatMap_cons, originsOf_append, originsOf_cons]
      refine add_le_add ?_ ih
      unfold ManifestListWriter.splitKept
      split
      · rename_i stays
        have live : entry.live = true := Bool.and_elim_left stays
        rw [if_pos live]
        exact le_refl _
      · exact Multiset.zero_le _
  · rw [show parts.1.filteredEntries = _ from gone]
    refine originsOf_eq_zero fun entry member => ?_
    obtain ⟨source, -, made⟩ := List.mem_flatMap.mp
      ((List.mem_append.mp member).resolve_left List.not_mem_nil)
    unfold ManifestListWriter.splitTombstone at made
    split at made
    · rw [List.mem_singleton.mp made]
      rfl
    · exact absurd made List.not_mem_nil

end Writing

/-! ### Lists -/

/-- The live files of the manifest of a row, with their sequence numbers. -/
def originsAt (version : FormatVersion) (store : Store V) (row : ManifestListEntry V) :
    Multiset (DataFile V × Int) :=
  originsOf version row.sequenceNumber (store.entriesAt row.manifestPath)

/-- The live files of rows. -/
def rowOrigins (version : FormatVersion) (store : Store V)
    (rows : Multiset (ManifestListEntry V)) : Multiset (DataFile V × Int) :=
  (rows.map (originsAt version store)).sum

/-- The live files of entries to be written under a sequence number. -/
def looseOrigins (version : FormatVersion) (inherited : Int)
    (loose : Multiset (ManifestContent × ManifestEntry V)) : Multiset (DataFile V × Int) :=
  (loose.filter (·.2.live)).map fun x =>
    (x.2.dataFile.identity version, x.2.sequenceIn inherited)

section Sums

variable (version : FormatVersion) (store : Store V) (inherited : Int)

@[simp] theorem rowOrigins_zero : rowOrigins version store 0 = 0 := rfl

@[simp] theorem rowOrigins_cons (row : ManifestListEntry V)
    (rows : Multiset (ManifestListEntry V)) :
    rowOrigins version store (row ::ₘ rows) =
      originsAt version store row + rowOrigins version store rows := by
  rw [rowOrigins, Multiset.map_cons, Multiset.sum_cons, rowOrigins]

/-- Some rows and the others. -/
theorem rowOrigins_filter_add (p : ManifestListEntry V → Bool) (rows : List (ManifestListEntry V)) :
    rowOrigins version store (Multiset.ofList (rows.filter p)) +
        rowOrigins version store (Multiset.ofList (rows.filter fun row => !p row)) =
      rowOrigins version store (Multiset.ofList rows) := by
  induction rows with
  | nil => rfl
  | cons row rows ih =>
    rw [← Multiset.cons_coe, rowOrigins_cons, ← ih]
    by_cases holds : p row = true
    · rw [List.filter_cons_of_pos holds, List.filter_cons_of_neg (by simp [holds]),
        ← Multiset.cons_coe, rowOrigins_cons, add_assoc]
    · rw [List.filter_cons_of_neg holds, List.filter_cons_of_pos (by simp [holds]),
        ← Multiset.cons_coe, rowOrigins_cons, add_left_comm]

variable {version store} in
theorem mem_rowOrigins {rows : Multiset (ManifestListEntry V)} {x : DataFile V × Int} :
    x ∈ rowOrigins version store rows ↔ ∃ row ∈ rows, x ∈ originsAt version store row :=
  Multiset.mem_join.trans (by simp)

@[simp] theorem looseOrigins_zero :
    looseOrigins version inherited (0 : Multiset (ManifestContent × ManifestEntry V)) = 0 := rfl

theorem looseOrigins_add (first second : Multiset (ManifestContent × ManifestEntry V)) :
    looseOrigins version inherited (first + second) =
      looseOrigins version inherited first + looseOrigins version inherited second := by
  rw [looseOrigins, Multiset.filter_add, Multiset.map_add, looseOrigins, looseOrigins]

@[simp] theorem looseOrigins_tagged (content : ManifestContent)
    (entries : List (ManifestEntry V)) :
    looseOrigins version inherited (tagged content entries) =
      originsOf version inherited entries := by
  simp [looseOrigins, tagged, originsOf, List.filter_map, Function.comp_def]

theorem looseOrigins_cons (content : ManifestContent) (entry : ManifestEntry V)
    (loose : Multiset (ManifestContent × ManifestEntry V)) :
    looseOrigins version inherited ((content, entry) ::ₘ loose) =
      originsOf version inherited [entry] + looseOrigins version inherited loose := by
  rw [← looseOrigins_tagged version inherited content [entry], ← looseOrigins_add]
  rfl

end Sums

/-- All live files of a list under construction, with their sequence numbers. -/
def Assembly.origins (metadata : TableMetadata) (a : Assembly V) : Multiset (DataFile V × Int) :=
  rowOrigins metadata.formatVersion a.store a.held +
    (rowOrigins metadata.formatVersion a.store (Multiset.ofList a.output.writer.rows) +
      looseOrigins metadata.formatVersion (nextSequenceNumber metadata) a.loose)

theorem originsAt_congr {before after : Store V} {row other : ManifestListEntry V}
    (path : other.manifestPath = row.manifestPath)
    (sequence : other.sequenceNumber = row.sequenceNumber)
    (same : after.manifest row.manifestPath = before.manifest row.manifestPath) :
    originsAt version after other = originsAt version before row := by
  rw [originsAt, originsAt, Store.entriesAt, Store.entriesAt, path, sequence, same]

theorem rowOrigins_congr {before after : Store V} {rows : Multiset (ManifestListEntry V)}
    (same : ∀ row ∈ rows, originsAt version after row = originsAt version before row) :
    rowOrigins version after rows = rowOrigins version before rows := by
  unfold rowOrigins
  rw [Multiset.map_congr rfl same]

variable [PartitionValue V] {metadata : TableMetadata} {snapshotId : Int} {uuid : String}

theorem originsAt_read {store : Store V} {row : ManifestListEntry V} {file : ManifestFile V}
    (fetched : store.getManifest row.manifestPath = .ok file) (read : file.read = .ok entries)
    (version : FormatVersion) :
    originsAt version store row = originsOf version row.sequenceNumber entries := by
  rw [originsAt, Store.entriesAt_of_getManifest fetched, read_origins read]

variable {filled : ManifestWriter V} {a b : Assembly V}

omit [PartitionValue V] in
theorem originsAt_wrote (a : Assembly V) {number : Int}
    (sequence : filled.manifest.sequenceNumber = number) (version : FormatVersion) :
    originsAt version (a.wrote filled).store filled.manifest =
      originsOf version number filled.file.entries := by
  rw [originsAt, sequence, Store.entriesAt, Assembly.wrote, Store.putManifest_manifest_self]
  rfl

/-- What a list is rewritten from does not change while it is. -/
structure OriginsStay (version : FormatVersion) (a b : Assembly V) : Prop where
  held : ∀ rows ≤ a.held, rowOrigins version b.store rows = rowOrigins version a.store rows
  listed : rowOrigins version b.store (Multiset.ofList a.output.writer.rows) =
    rowOrigins version a.store (Multiset.ofList a.output.writer.rows)

theorem AssemblyStep.originsStay {mixes : Prop}
    (step : AssemblyStep metadata snapshotId uuid mixes a b)
    (here : AllBacked metadata.location uuid a) (version : FormatVersion) :
    OriginsStay version a b := by
  have stable (row) (backed : Backed metadata.location uuid a row) :
      originsAt version b.store row = originsAt version a.store row :=
    originsAt_congr rfl rfl (backed.manifest step.stores)
  constructor
  · intro rows within
    exact rowOrigins_congr fun row member =>
      stable row (here.held row (Multiset.mem_of_le within member))
  · exact rowOrigins_congr fun row member => stable row (here.listed row (Multiset.mem_coe.mp member))

/-- The files of a manifest written for the commit, and of the rows that were held. -/
theorem wrote_origins {begun : ManifestWriter V} {rows : Multiset (ManifestListEntry V)}
    (fills : entries.foldlM (ManifestWriter.append metadata) begun = .ok filled)
    (schema : begun.avro.formatVersion = metadata.formatVersion)
    (versioned : metadata.formatVersion ≠ .v1)
    (sequence : begun.manifest.sequenceNumber = nextSequenceNumber metadata)
    (stays : rowOrigins metadata.formatVersion (a.wrote filled).store rows =
      rowOrigins metadata.formatVersion a.store rows) :
    rowOrigins metadata.formatVersion (a.wrote filled).store (filled.manifest ::ₘ rows) =
      originsOf metadata.formatVersion (nextSequenceNumber metadata) begun.file.entries +
        originsOf metadata.formatVersion (nextSequenceNumber metadata) entries +
        rowOrigins metadata.formatVersion a.store rows := by
  rw [rowOrigins_cons, originsAt_wrote a ((fill_sequence fills).trans sequence),
    fill_origins fills schema versioned, stays]

/-- No step adds a file, or gives one another sequence number. -/
theorem AssemblyStep.origins_le {mixes : Prop}
    (step : AssemblyStep metadata snapshotId uuid mixes a b)
    (versioned : metadata.formatVersion ≠ .v1)
    (version : a.output.writer.formatVersion = metadata.formatVersion)
    (here : AllBacked metadata.location uuid a) : b.origins metadata ≤ a.origins metadata := by
  obtain ⟨held, listed⟩ := step.originsStay here metadata.formatVersion
  unfold Assembly.origins
  cases step with
  | list a row output appends =>
    obtain ⟨first, record, converts, written⟩ := appendManifest_spec appends
    have rows : Multiset.ofList output.writer.rows =
        record ::ₘ Multiset.ofList a.output.writer.rows := by
      rw [show output.writer.rows = _ from congrArg (·.rows) written, ← Multiset.coe_add, add_comm]
      rfl
    have same := record_sameSequence (version ▸ versioned) converts
    have kept : originsAt metadata.formatVersion a.store record =
        originsAt metadata.formatVersion a.store row :=
      originsAt_congr same.path same.sequence rfl
    rw [rows, rowOrigins_cons, rowOrigins_cons, kept]
    apply le_of_eq
    abel
  | displace a row v3 =>
    rw [rowOrigins_cons]
    exact add_le_add_left (Multiset.le_add_left _ _) _
  | retag a mixed source target entry dead =>
    rw [looseOrigins_cons, looseOrigins_cons]
  | promote a content entry partition =>
    have same : originsOf metadata.formatVersion (nextSequenceNumber metadata)
        [{ entry with dataFile := { entry.dataFile with partition } }] =
          originsOf metadata.formatVersion (nextSequenceNumber metadata) [entry] :=
      originsOf_congr (.cons ⟨⟨rfl, DataFile.identity_partition _ _ _⟩, fun _ => rfl⟩ .nil)
    rw [looseOrigins_cons, looseOrigins_cons, same]
  | write a content avro entries begun filled schema begins fills =>
    obtain ⟨same, none, row⟩ := new_spec begins
    have sequence : begun.manifest.sequenceNumber = nextSequenceNumber metadata := by rw [row]
    have rows : rowOrigins metadata.formatVersion (a.wrote filled).store (a.wrote filled).held = _ :=
      wrote_origins fills (by rw [same, schema]) versioned sequence (held _ (le_refl _))
    rw [none, originsOf_nil, zero_add] at rows
    rw [rows, looseOrigins_add, looseOrigins_tagged]
    refine le_of_eq (Eq.trans (congrArg (fun listed => _ + (listed + _)) listed) ?_)
    dsimp only [Assembly.wrote]
    abel
  | rewrite a row file avro existing entries begun filled v3 schema fetched read begins fills =>
    have same : begun.avro = avro := by
      obtain ⟨stored, state, -, same, -⟩ := fromExisting_spec begins
      exact same
    obtain ⟨old, sequence⟩ := fromExisting_origins begins versioned (nextSequenceNumber metadata)
    have rows : rowOrigins metadata.formatVersion (a.wrote filled).store (a.wrote filled).held = _ :=
      wrote_origins fills (by rw [same, schema]) versioned sequence
        (held _ (Multiset.le_cons_self _ _))
    rw [old, ← originsAt_read fetched read] at rows
    rw [rows, looseOrigins_add, looseOrigins_tagged, rowOrigins_cons]
    refine le_of_eq (Eq.trans (congrArg (fun listed => _ + (listed + _)) listed) ?_)
    dsimp only [Assembly.wrote]
    abel
  | filter a row file paths source avro existing entries begun filled stats alone schema fetched
      read begins fills =>
    have same : begun.avro = avro := by
      obtain ⟨context, resolved, -, same, -⟩ := fromExistingWithFilter_spec begins
      exact same
    obtain ⟨removes, -⟩ := fromExistingWithFilter_files begins
    have left : originsOf metadata.formatVersion (nextSequenceNumber metadata)
        stats.filteredEntries = 0 :=
      originsOf_eq_zero fun entry member => (removes.mem_left member).1
    obtain ⟨fewer, sequence⟩ :=
      fromExistingWithFilter_origins begins versioned (nextSequenceNumber metadata)
    have rows : rowOrigins metadata.formatVersion (a.wrote filled).store (a.wrote filled).held = _ :=
      wrote_origins fills (by rw [same, schema]) versioned sequence
        (held _ (Multiset.le_cons_self _ _))
    rw [← originsAt_read fetched read] at fewer
    rw [rows, looseOrigins_add, looseOrigins_add, looseOrigins_tagged, looseOrigins_tagged, left,
      zero_add, rowOrigins_cons]
    refine (add_le_add (add_le_add (add_le_add fewer (le_refl _)) (le_refl _))
      (add_le_add listed.le (le_refl _))).trans (le_of_eq ?_)
    dsimp only [Assembly.wrote]
    abel
  | vanish a row file paths source avro existing filtered stats schema fetched read begins empty =>
    obtain ⟨removes, -⟩ := fromExistingWithFilter_files begins
    have left : originsOf metadata.formatVersion (nextSequenceNumber metadata)
        stats.filteredEntries = 0 :=
      originsOf_eq_zero fun entry member => (removes.mem_left member).1
    rw [looseOrigins_add, looseOrigins_tagged, left, zero_add, rowOrigins_cons]
    refine add_le_add ((held _ (Multiset.le_cons_self _ _)).le.trans (Multiset.le_add_left _ _)) ?_
    exact add_le_add listed.le (le_refl _)
  | dissolve a row file paths existing v3 fetched read =>
    obtain ⟨kept, gone⟩ := split_origins metadata.formatVersion (nextSequenceNumber metadata) row
      paths existing
    rw [← originsAt_read fetched read] at kept
    rw [looseOrigins_add, looseOrigins_add, looseOrigins_tagged, looseOrigins_tagged, gone, zero_add,
      rowOrigins_cons]
    refine (add_le_add (held _ (Multiset.le_cons_self _ _)).le (add_le_add listed.le
      (add_le_add kept (le_refl _)))).trans (le_of_eq ?_)
    abel

/-- A row is one of the old list, or has been written for the commit. -/
def Descends (metadata : TableMetadata) (rows : List (ManifestListEntry V))
    (row : ManifestListEntry V) : Prop :=
  (∃ old ∈ rows, row.manifestPath = old.manifestPath ∧ row.sequenceNumber = old.sequenceNumber) ∨
    row.sequenceNumber = nextSequenceNumber metadata

/-- The state of a list under construction as far as the origin of its rows goes. -/
structure Tracking (metadata : TableMetadata) (uuid : String) (rows : List (ManifestListEntry V))
    (a : Assembly V) : Prop where
  version : a.output.writer.formatVersion = metadata.formatVersion
  backed : AllBacked metadata.location uuid a
  held : ∀ row ∈ a.held, Descends metadata rows row
  listed : ∀ row ∈ a.output.writer.rows, Descends metadata rows row

/-- A manifest a step writes carries the sequence number of the commit. -/
theorem WrittenFrom.sequence (written : WrittenFrom metadata snapshotId uuid a filled)
    (versioned : metadata.formatVersion ≠ .v1) :
    filled.manifest.sequenceNumber = nextSequenceNumber metadata := by
  cases written with
  | new content avro entries begun schema begins fills loose =>
    obtain ⟨-, -, row⟩ := new_spec begins
    exact (fill_sequence fills).trans (by rw [row])
  | existing row held file avro existing entries begun v3 schema fetched read begins fills loose =>
    obtain ⟨-, sequence⟩ := fromExisting_origins begins versioned (nextSequenceNumber metadata)
    exact (fill_sequence fills).trans sequence
  | filtered row held file paths source avro existing entries begun stats alone schema fetched read
      begins fills loose =>
    obtain ⟨-, sequence⟩ :=
      fromExistingWithFilter_origins begins versioned (nextSequenceNumber metadata)
    exact (fill_sequence fills).trans sequence

theorem AssemblyStep.tracking {mixes : Prop} {rows : List (ManifestListEntry V)}
    (step : AssemblyStep metadata snapshotId uuid mixes a b)
    (versioned : metadata.formatVersion ≠ .v1) (here : Tracking metadata uuid rows a) :
    Tracking metadata uuid rows b := by
  obtain ⟨version, held, listed⟩ := step.rows
  refine ⟨version.trans here.version, step.allBacked here.backed, ?_, ?_⟩
  · intro row member
    rcases held row member with old | ⟨filled, rfl, -, -, written⟩
    · exact here.held row old
    · exact .inr (written.sequence versioned)
  · intro record member
    rcases listed record member with old | ⟨row, among, first, converts⟩
    · exact here.listed record old
    · have same := record_sameSequence (here.version ▸ versioned) converts
      have descends := here.held row among
      unfold Descends at descends ⊢
      rwa [same.path, same.sequence]

/-- No run adds a file, or gives one another sequence number. -/
theorem Assembles.origins_le {mixes : Prop} {rows : List (ManifestListEntry V)}
    (run : Assembles metadata snapshotId uuid mixes a b) (versioned : metadata.formatVersion ≠ .v1)
    (start : Tracking metadata uuid rows a) :
    Tracking metadata uuid rows b ∧ b.origins metadata ≤ a.origins metadata :=
  run.invariant
    (I := fun b => Tracking metadata uuid rows b ∧ b.origins metadata ≤ a.origins metadata)
    (fun _ _ step here => ⟨step.tracking versioned here.1,
      (step.origins_le versioned here.1.version here.1.backed).trans here.2⟩) ⟨start, le_refl _⟩

end IcebergRust

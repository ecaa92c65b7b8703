import IcebergRust.Table.Assembled
import IcebergRust.Table.Objects

/-!
# Files are conserved

What becomes of the live files while a manifest list is assembled: each is in a manifest
that is listed or held, or in an entry that is not written yet, unless the ledger says how
it has gone.

* `Assembly.files` counts them all; `AssemblyStep.conserved` is the step lemma, one case for
  each constructor, and `Assembles.conserved` the run lemma.
* `Ledger.files` is what has gone: the files of lost rows, the files removed from filtered
  ones, and what was left of filtered rows that are not listed.
-/

namespace IcebergRust

open Fallible ManifestWriter ManifestListWriter

variable {V : Type}

/-- The live files of all the manifests of rows. -/
def rowFiles (metadata : TableMetadata) (store : Store V) (rows : Multiset (ManifestListEntry V)) :
    Multiset (DataFile V) :=
  (rows.map (filesAt metadata store)).sum

@[simp] theorem rowFiles_zero (metadata : TableMetadata) (store : Store V) :
    rowFiles metadata store 0 = 0 := rfl

@[simp] theorem rowFiles_cons (metadata : TableMetadata) (store : Store V)
    (row : ManifestListEntry V) (rows : Multiset (ManifestListEntry V)) :
    rowFiles metadata store (row ::ₘ rows) = filesAt metadata store row + rowFiles metadata store rows := by
  rw [rowFiles, Multiset.map_cons, Multiset.sum_cons, rowFiles]

theorem rowFiles_add (metadata : TableMetadata) (store : Store V)
    (first second : Multiset (ManifestListEntry V)) :
    rowFiles metadata store (first + second) =
      rowFiles metadata store first + rowFiles metadata store second := by
  rw [rowFiles, Multiset.map_add, Multiset.sum_add, rowFiles, rowFiles]

theorem rowFiles_congr {metadata : TableMetadata} {before after : Store V}
    {rows : Multiset (ManifestListEntry V)}
    (same : ∀ row ∈ rows, filesAt metadata after row = filesAt metadata before row) :
    rowFiles metadata after rows = rowFiles metadata before rows := by
  unfold rowFiles
  rw [Multiset.map_congr rfl same]

/-- The files of entries that are not written yet. -/
def looseFiles (version : FormatVersion) (loose : Multiset (ManifestContent × ManifestEntry V)) :
    Multiset (DataFile V) :=
  (loose.filter (·.2.live)).map (·.2.dataFile.identity version)

@[simp] theorem looseFiles_zero (version : FormatVersion) :
    looseFiles version (0 : Multiset (ManifestContent × ManifestEntry V)) = 0 := rfl

theorem looseFiles_add (version : FormatVersion)
    (first second : Multiset (ManifestContent × ManifestEntry V)) :
    looseFiles version (first + second) = looseFiles version first + looseFiles version second := by
  rw [looseFiles, Multiset.filter_add, Multiset.map_add, looseFiles, looseFiles]

@[simp] theorem looseFiles_tagged (version : FormatVersion) (content : ManifestContent)
    (entries : List (ManifestEntry V)) :
    looseFiles version (tagged content entries) = liveFiles version entries := by
  simp [looseFiles, tagged, liveFiles, filesWhere, List.filter_map, Function.comp_def]

theorem looseFiles_cons (version : FormatVersion) (content : ManifestContent)
    (entry : ManifestEntry V) (loose : Multiset (ManifestContent × ManifestEntry V)) :
    looseFiles version ((content, entry) ::ₘ loose) =
      liveFiles version [entry] + looseFiles version loose := by
  rw [← looseFiles_tagged version content [entry], ← looseFiles_add]
  rfl

/-- The live files a ledger accounts for. -/
def Ledger.files (metadata : TableMetadata) (store : Store V) (ledger : Ledger V) :
    Multiset (DataFile V) :=
  rowFiles metadata store ledger.displaced +
    ((ledger.filtered.map fun removal =>
      (filesAt metadata store removal.1).filter (named removal.2)).sum +
      (ledger.discarded.map fun removal =>
        (filesAt metadata store removal.1).filter (¬ named removal.2 ·)).sum)

@[simp] theorem Ledger.files_empty (metadata : TableMetadata) (store : Store V) :
    Ledger.empty.files metadata store = 0 := rfl

theorem Ledger.files_displace (metadata : TableMetadata) (store : Store V) (ledger : Ledger V)
    (row : ManifestListEntry V) : (ledger.displace row).files metadata store =
      filesAt metadata store row + ledger.files metadata store := by
  rw [files, displace, rowFiles_cons, files]
  exact add_assoc _ _ _

theorem Ledger.files_filter (metadata : TableMetadata) (store : Store V) (ledger : Ledger V)
    (row : ManifestListEntry V) (paths : Option (List String)) :
    (ledger.filter row paths).files metadata store =
      (filesAt metadata store row).filter (named (paths.getD [])) + ledger.files metadata store := by
  cases paths with
  | none =>
    have none : (filesAt metadata store row).filter (named ([] : List String)) = 0 :=
      Multiset.filter_eq_nil.mpr fun file _ => List.not_mem_nil
    rw [Option.getD_none, none, zero_add]
    rfl
  | some paths =>
    simp only [files, filter, Multiset.map_cons, Multiset.sum_cons, Option.getD_some]
    abel

theorem Ledger.files_discard (metadata : TableMetadata) (store : Store V) (ledger : Ledger V)
    (row : ManifestListEntry V) (paths : List String) :
    (ledger.discard row paths).files metadata store =
      (filesAt metadata store row).filter (¬ named paths ·) + ledger.files metadata store := by
  simp only [files, discard, Multiset.map_cons, Multiset.sum_cons]
  abel

/-- All live files of an assembly, and those that have gone. -/
def Assembly.files (metadata : TableMetadata) (a : Assembly V) : Multiset (DataFile V) :=
  rowFiles metadata a.store a.held + (rowFiles metadata a.store (Multiset.ofList a.output.writer.rows) +
    (looseFiles metadata.formatVersion a.loose + a.ledger.files metadata a.store))

/-- The manifests of the rows of a ledger are in the store. -/
structure Ledger.Backed (location uuid : String) (a : Assembly V) : Prop where
  displaced : ∀ row ∈ a.ledger.displaced, IcebergRust.Backed location uuid a row
  filtered : ∀ removal ∈ a.ledger.filtered, IcebergRust.Backed location uuid a removal.1
  discarded : ∀ removal ∈ a.ledger.discarded, IcebergRust.Backed location uuid a removal.1

variable {a b : Assembly V}

theorem Ledger.files_congr {metadata : TableMetadata} {location uuid : String} {after : Store V}
    (backed : Ledger.Backed location uuid a) (same : ∀ row, IcebergRust.Backed location uuid a row →
      filesAt metadata after row = filesAt metadata a.store row) :
    a.ledger.files metadata after = a.ledger.files metadata a.store := by
  have filtered : (a.ledger.filtered.map fun removal =>
      (filesAt metadata after removal.1).filter (named removal.2)) = a.ledger.filtered.map
        fun removal => (filesAt metadata a.store removal.1).filter (named removal.2) :=
    Multiset.map_congr rfl fun removal member => by
      rw [same removal.1 (backed.filtered removal member)]
  have discarded : (a.ledger.discarded.map fun removal =>
      (filesAt metadata after removal.1).filter (¬ named removal.2 ·)) = a.ledger.discarded.map
        fun removal => (filesAt metadata a.store removal.1).filter (¬ named removal.2 ·) :=
    Multiset.map_congr rfl fun removal member => by
      rw [same removal.1 (backed.discarded removal member)]
  unfold files
  rw [rowFiles_congr fun row member => same row (backed.displaced row member), filtered, discarded]

/-! ### Steps -/

variable [PartitionValue V] {metadata : TableMetadata} {snapshotId : Int} {uuid : String}

omit [PartitionValue V] in
theorem filesAt_congr {before after : Store V} {row other : ManifestListEntry V}
    (path : other.manifestPath = row.manifestPath)
    (same : after.manifest row.manifestPath = before.manifest row.manifestPath) :
    filesAt metadata after other = filesAt metadata before row := by
  rw [filesAt, filesAt, Store.entriesAt, Store.entriesAt, path, same]

omit [PartitionValue V] in
theorem filesAt_wrote (a : Assembly V) (filled : ManifestWriter V) :
    filesAt metadata (a.wrote filled).store filled.manifest =
      liveFiles metadata.formatVersion filled.file.entries := by
  rw [filesAt, Store.entriesAt, Assembly.wrote, Store.putManifest_manifest_self]
  rfl

theorem filesAt_read {store : Store V} {row : ManifestListEntry V} {file : ManifestFile V}
    {entries : List (ManifestEntry V)} (fetched : store.getManifest row.manifestPath = .ok file)
    (read : file.read = .ok entries) :
    filesAt metadata store row = liveFiles metadata.formatVersion entries := by
  rw [filesAt, Store.entriesAt_of_getManifest fetched, liveFiles_congr (file.read_sameFile read _)]

theorem AssemblyStep.ledgerBacked {mixes : Prop}
    (step : AssemblyStep metadata snapshotId uuid mixes a b)
    (here : AllBacked metadata.location uuid a) (ledger : Ledger.Backed metadata.location uuid a) :
    Ledger.Backed metadata.location uuid b := by
  have stores := step.stores
  have old : (∀ row ∈ a.ledger.displaced, Backed metadata.location uuid b row) ∧
      (∀ removal ∈ a.ledger.filtered, Backed metadata.location uuid b removal.1) ∧
      ∀ removal ∈ a.ledger.discarded, Backed metadata.location uuid b removal.1 :=
    ⟨fun row member => (ledger.displaced row member).stores stores,
      fun removal member => (ledger.filtered removal member).stores stores,
      fun removal member => (ledger.discarded removal member).stores stores⟩
  obtain ⟨displaced, filtered, discarded⟩ := old
  have held (row) (member : row ∈ a.held) : Backed metadata.location uuid b row :=
    (here.held row member).stores stores
  cases step with
  | displace a row versioned =>
    refine ⟨?_, filtered, discarded⟩
    intro one member
    rcases Multiset.mem_cons.mp member with rfl | old
    · exact held _ (Multiset.mem_cons_self _ _)
    · exact displaced one old
  | filter a row file paths source avro existing entries begun filled stats alone version fetched
      read begins fills =>
    refine ⟨displaced, ?_, discarded⟩
    intro one member
    rcases Multiset.mem_cons.mp member with rfl | old
    · exact held row (Multiset.mem_cons_self _ _)
    · exact filtered one old
  | vanish a row file paths source avro existing filtered' stats version fetched read begins empty =>
    refine ⟨displaced, ?_, ?_⟩
    · intro one member
      rcases Multiset.mem_cons.mp member with rfl | old
      · exact held row (Multiset.mem_cons_self _ _)
      · exact filtered one old
    · intro one member
      rcases Multiset.mem_cons.mp member with rfl | old
      · exact held row (Multiset.mem_cons_self _ _)
      · exact discarded one old
  | dissolve a row file paths existing versioned fetched read =>
    cases paths with
    | none => exact ⟨displaced, filtered, discarded⟩
    | some paths =>
      refine ⟨displaced, ?_, discarded⟩
      intro one member
      rcases Multiset.mem_cons.mp member with rfl | old
      · exact held row (Multiset.mem_cons_self _ _)
      · exact filtered one old
  | _ => exact ⟨displaced, filtered, discarded⟩

/-- The files of rows and of a ledger do not depend on the manifests a step stores. -/
structure Unaffected (metadata : TableMetadata) (a b : Assembly V) : Prop where
  row : ∀ row ∈ a.held, filesAt metadata b.store row = filesAt metadata a.store row
  held : ∀ rows ≤ a.held, rowFiles metadata b.store rows = rowFiles metadata a.store rows
  listed : rowFiles metadata b.store (Multiset.ofList a.output.writer.rows) =
    rowFiles metadata a.store (Multiset.ofList a.output.writer.rows)
  ledger : a.ledger.files metadata b.store = a.ledger.files metadata a.store

theorem AssemblyStep.unaffected {mixes : Prop}
    (step : AssemblyStep metadata snapshotId uuid mixes a b)
    (here : AllBacked metadata.location uuid a) (ledger : Ledger.Backed metadata.location uuid a) :
    Unaffected metadata a b := by
  have stable (row) (backed : Backed metadata.location uuid a row) :
      filesAt metadata b.store row = filesAt metadata a.store row :=
    filesAt_congr rfl (backed.manifest step.stores)
  constructor
  · exact fun row member => stable row (here.held row member)
  · intro rows within
    exact rowFiles_congr fun row member => stable row (here.held row (Multiset.mem_of_le within member))
  · exact rowFiles_congr fun row member => stable row (here.listed row (Multiset.mem_coe.mp member))
  · exact Ledger.files_congr ledger stable

/-- No step loses a file or counts one twice. -/
theorem AssemblyStep.conserved {mixes : Prop}
    (step : AssemblyStep metadata snapshotId uuid mixes a b)
    (here : AllBacked metadata.location uuid a) (ledger : Ledger.Backed metadata.location uuid a) :
    b.files metadata = a.files metadata := by
  obtain ⟨one, held, listed, gone⟩ := step.unaffected here ledger
  unfold Assembly.files
  cases step with
  | list a row output appends =>
    obtain ⟨first, record, converts, written⟩ := appendManifest_spec appends
    have rows : Multiset.ofList output.writer.rows =
        record ::ₘ Multiset.ofList a.output.writer.rows := by
      rw [show output.writer.rows = _ from congrArg (·.rows) written, ← Multiset.coe_add, add_comm]
      rfl
    have path := toRecord_path converts
    have same : filesAt metadata a.store record = filesAt metadata a.store row :=
      filesAt_congr (show record.manifestPath = row.manifestPath from path) rfl
    rw [rows, rowFiles_cons, rowFiles_cons, same]
    abel
  | displace a row versioned =>
    rw [Ledger.files_displace, rowFiles_cons]
    abel
  | retag a mixed source target entry =>
    rw [looseFiles_cons, looseFiles_cons]
  | promote a content entry partition =>
    rw [looseFiles_cons, looseFiles_cons]
    have same : liveFiles metadata.formatVersion
        [{ entry with dataFile := { entry.dataFile with partition } }] =
          liveFiles metadata.formatVersion [entry] :=
      liveFiles_congr (.cons ⟨rfl, DataFile.identity_partition _ _ _⟩ .nil)
    rw [same]
  | write a content avro entries begun filled version begins fills =>
    obtain ⟨schema, none, -⟩ := new_spec begins
    have files := (fill_files fills (by rw [schema, version])).1
    rw [none, liveFiles_nil, zero_add] at files
    have stored : filesAt metadata (a.wrote filled).store filled.manifest = _ := filesAt_wrote a filled
    rw [files] at stored
    have rows : rowFiles metadata (a.wrote filled).store (a.wrote filled).held = _ :=
      rowFiles_cons metadata (a.wrote filled).store filled.manifest a.held
    rw [stored, held _ (le_refl _)] at rows
    rw [rows, looseFiles_add, looseFiles_tagged]
    refine Eq.trans (congrArg₂ (fun listed ledger => _ + (listed + (_ + ledger))) listed gone) ?_
    dsimp only [Assembly.wrote]
    abel
  | rewrite a row file avro existing entries begun filled v3 version fetched read begins fills =>
    have schema : begun.avro = avro := by
      obtain ⟨stored, state, -, same, -⟩ := fromExisting_spec begins
      exact same
    have files := (fill_files fills (by rw [schema, version])).1
    rw [(fromExisting_files begins).1, ← filesAt_read fetched read] at files
    have stored : filesAt metadata (a.wrote filled).store filled.manifest = _ := filesAt_wrote a filled
    rw [files] at stored
    have rows : rowFiles metadata (a.wrote filled).store (a.wrote filled).held = _ :=
      rowFiles_cons metadata (a.wrote filled).store filled.manifest a.held
    rw [stored, held _ (Multiset.le_cons_self _ _)] at rows
    rw [rows, looseFiles_add, looseFiles_tagged, rowFiles_cons]
    refine Eq.trans (congrArg₂ (fun listed ledger => _ + (listed + (_ + ledger))) listed gone) ?_
    dsimp only [Assembly.wrote]
    abel
  | filter a row file paths source avro existing entries begun filled stats alone version fetched
      read begins fills =>
    obtain ⟨removes, -⟩ := fromExistingWithFilter_files begins
    have schema : begun.avro = avro := by
      obtain ⟨context, resolved, -, same, -⟩ := fromExistingWithFilter_spec begins
      exact same
    have files := (fill_files fills (by rw [schema, version])).1
    rw [removes.kept, ← filesAt_read fetched read] at files
    have stored : filesAt metadata (a.wrote filled).store filled.manifest = _ := filesAt_wrote a filled
    rw [files] at stored
    have rows : rowFiles metadata (a.wrote filled).store (a.wrote filled).held = _ :=
      rowFiles_cons metadata (a.wrote filled).store filled.manifest a.held
    rw [stored, held _ (Multiset.le_cons_self _ _)] at rows
    have same := one row (Multiset.mem_cons_self row a.held)
    have parts := Multiset.filter_add_not (named paths) (filesAt metadata a.store row)
    rw [rows, Ledger.files_filter, same, looseFiles_add, looseFiles_tagged, removes.gone,
      looseFiles_add, looseFiles_tagged, rowFiles_cons, Option.getD_some]
    refine Eq.trans (congrArg₂ (fun listed ledger => _ + (listed + (_ + (_ + ledger)))) listed gone) ?_
    refine Eq.trans ?_ (congrArg (fun files => files + _ + _) parts)
    dsimp only [Assembly.wrote]
    abel
  | vanish a row file paths source avro existing filtered stats version fetched read begins empty =>
    obtain ⟨removes, -⟩ := fromExistingWithFilter_files begins
    have same := one row (Multiset.mem_cons_self row a.held)
    have parts := Multiset.filter_add_not (named paths) (filesAt metadata a.store row)
    rw [held _ (Multiset.le_cons_self _ _), Ledger.files_discard, Ledger.files_filter, same,
      looseFiles_add, looseFiles_tagged, removes.gone, rowFiles_cons, Option.getD_some]
    refine Eq.trans (congrArg₂ (fun listed ledger => _ + (listed + (_ + (_ + (_ + ledger))))) listed
      gone) ?_
    refine Eq.trans ?_ (congrArg (fun files => files + _ + _) parts)
    abel
  | dissolve a row file paths existing versioned fetched read =>
    have removes := split_removes metadata.formatVersion row paths existing
    obtain ⟨kept, left⟩ := splitResolve_fold row paths existing (.empty, [])
    have parts := Multiset.filter_add_not (named (paths.getD [])) (filesAt metadata a.store row)
    have live : liveFiles metadata.formatVersion
        (existing.foldl (splitResolve row paths) (.empty, [])).2 =
          (filesAt metadata a.store row).filter (¬ named (paths.getD []) ·) := by
      rw [kept, List.nil_append, removes.kept, ← filesAt_read fetched read]
    have dead : liveFiles metadata.formatVersion
        (existing.foldl (splitResolve row paths) (.empty, [])).1.filteredEntries = 0 := by
      rw [left]
      exact removes.gone
    rw [Ledger.files_filter, looseFiles_add, looseFiles_add, looseFiles_tagged, looseFiles_tagged,
      live, dead, rowFiles_cons]
    refine Eq.trans ?_ (congrArg (fun files => files + _ + _) parts)
    abel

/-- No run loses a file or counts one twice. -/
theorem Assembles.conserved {mixes : Prop} (run : Assembles metadata snapshotId uuid mixes a b)
    (here : AllBacked metadata.location uuid a) (ledger : Ledger.Backed metadata.location uuid a) :
    b.files metadata = a.files metadata := by
  have kept := run.invariant
    (I := fun b => AllBacked metadata.location uuid b ∧ Ledger.Backed metadata.location uuid b ∧
      b.files metadata = a.files metadata)
    (fun _ _ step here => ⟨step.allBacked here.1, step.ledgerBacked here.1 here.2.1,
      (step.conserved here.1 here.2.1).trans here.2.2⟩) ⟨here, ledger, rfl⟩
  exact kept.2.2

end IcebergRust

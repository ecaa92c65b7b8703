import IcebergRust.DataFusion.ScanRows
import Mathlib.Data.List.TakeWhile

/-!
# The provenance of rows

The columns `__data_file_path` and `__manifest_file_path` of a scan, from which an overwrite takes
the entries that it replaces.

* `groupPlan_spec` is how the files of a group are scanned: those before an equality delete with
  the path of the delete's manifest, the others with that of their own.
* `plans_spec` lifts this to all plans of a scan.
* `plans_attributed_iff` is when both columns are right.
-/

namespace IcebergRust

open Fallible

variable {V : Type} {valueToScalarvalue : V → Except DataFusionError (ScalarValue V)}

/-! ### Groups with deletes -/

theorem mem_sortBySequence {files : List (ContentFile V)} {file : ContentFile V} :
    file ∈ sortBySequence files ↔ file ∈ files :=
  (List.perm_insertionSort _ files).mem_iff

/-- The files are sorted. -/
theorem sortBySequence_sorted (files : List (ContentFile V)) :
    (sortBySequence files).Pairwise fun file other =>
      file.sequenceNumber ≤ other.sequenceNumber := by
  have : IsTrans (ContentFile V) fun file other => file.sequenceNumber ≤ other.sequenceNumber :=
    ⟨fun _ _ _ first second => first.trans second⟩
  have : Std.Total fun file other : ContentFile V => file.sequenceNumber ≤ other.sequenceNumber :=
    ⟨fun _ _ => Int.le_total _ _⟩
  exact List.pairwise_insertionSort _ files

/-- What is left of sorted files is not before the delete. -/
theorem le_of_mem_dropWhile {files : List (ContentFile V)}
    (sorted : files.Pairwise fun file other => file.sequenceNumber ≤ other.sequenceNumber)
    {sequence : Int} {file : ContentFile V}
    (member : file ∈ files.dropWhile fun file => decide (file.sequenceNumber < sequence)) :
    sequence ≤ file.sequenceNumber := by
  induction files with
  | nil => cases member
  | cons first files ih =>
    obtain ⟨least, sorted⟩ := List.pairwise_cons.mp sorted
    by_cases earlier : first.sequenceNumber < sequence
    · have skipped : (first :: files).dropWhile
          (fun file => decide (file.sequenceNumber < sequence)) =
            files.dropWhile fun file => decide (file.sequenceNumber < sequence) :=
        List.dropWhile_cons_of_pos (decide_eq_true earlier)
      rw [skipped] at member
      exact ih sorted member
    · have kept : (first :: files).dropWhile
          (fun file => decide (file.sequenceNumber < sequence)) = first :: files :=
        List.dropWhile_cons_of_neg (by simpa using earlier)
      rw [kept] at member
      rcases List.mem_cons.mp member with rfl | later
      · exact Int.not_lt.mp earlier
      · exact (Int.not_lt.mp earlier).trans (least file later)

/-- A file of a group, with the path of the manifest of a delete that is after it. -/
def ScannedUnder (valueToScalarvalue : V → Except DataFusionError (ScalarValue V))
    (context : ScanContext V) (dataFiles deletes : List (ContentFile V))
    (file : PartitionedFile V) : Prop :=
  file.source ∈ dataFiles ∧ ∃ delete ∈ deletes,
    file.source.sequenceNumber < delete.sequenceNumber ∧
    context.partitionedFile valueToScalarvalue file.source delete.manifestPath = .ok file

/-- A file of a group, with the path of its own manifest: no delete is after it. -/
def ScannedAlone (valueToScalarvalue : V → Except DataFusionError (ScalarValue V))
    (context : ScanContext V) (dataFiles deletes : List (ContentFile V))
    (file : PartitionedFile V) : Prop :=
  file.source ∈ dataFiles ∧ (∀ delete ∈ deletes,
    ¬ file.source.sequenceNumber < delete.sequenceNumber) ∧
  context.ownFile valueToScalarvalue file.source = .ok file

/-- A plan without deletion vectors. -/
def ScanPlan.Unfiltered (plan : ScanPlan V) : Prop := plan.Filters fun _ => False

theorem ScanPlan.Filters.mono {fits other : PositionDeleteDataColumns → Prop}
    (weaker : ∀ columns, fits columns → other columns) {plan : ScanPlan V}
    (filters : plan.Filters fits) : plan.Filters other := by
  induction plan with
  | source _ _ => trivial
  | union left right left_ih right_ih => exact ⟨left_ih filters.1, right_ih filters.2⟩
  | equalityAnti _ _ right ih => exact ih filters
  | vectorFilter _ columns input ih =>
    exact ⟨weaker columns filters.1, filters.2.1, ih filters.2.2⟩
  | positionAnti _ _ right ih => exact ih filters
  | projection _ input ih => exact ih filters

/-- What the loop over equality deletes has planned of the files. -/
structure Reconciles (valueToScalarvalue : V → Except DataFusionError (ScalarValue V))
    (context : ScanContext V) (projection : List Nat) (dataFiles done : List (ContentFile V))
    (state : Option (ScanPlan V) × List (ContentFile V)) : Prop where
  sorted : state.2.Pairwise fun file other => file.sequenceNumber ≤ other.sequenceNumber
  within : ∀ file ∈ state.2, file ∈ dataFiles
  after : ∀ file ∈ state.2, ∀ delete ∈ done, delete.sequenceNumber ≤ file.sequenceNumber
  planned : ∀ plan ∈ state.1, plan.Unfiltered ∧
    plan.Over projection (ScannedUnder valueToScalarvalue context dataFiles done)
  scanned : ∀ file ∈ dataFiles, file ∈ state.2 ∨
    ∃ plan ∈ state.1, ∃ made, plan.Scans made ∧ made.source = file

variable {plan : Option (ScanPlan V)} {dataFiles : List (ContentFile V)}
  {columns : Option PositionDeleteDataColumns}

theorem ScanPlan.Over.withScan {indices : List Nat} {kind : PartitionedFile V → Prop}
    (over_ : ∀ own ∈ plan, own.Over indices kind) {files : List (PartitionedFile V)}
    (every : ∀ file ∈ files, kind file) :
    (withScan plan (.source files indices)).Over indices kind := by
  cases plan with
  | none => exact ⟨rfl, every⟩
  | some plan => exact ⟨over_ plan rfl, rfl, every⟩

theorem ScanPlan.Unfiltered.withScan (unfiltered : ∀ own ∈ plan, own.Unfiltered)
    (files : List (PartitionedFile V)) (indices : List Nat) :
    (withScan plan (.source files indices)).Unfiltered := by
  cases plan with
  | none => trivial
  | some plan => exact ⟨unfiltered plan rfl, trivial⟩

theorem scans_withScan {files : List (PartitionedFile V)} {indices : List Nat}
    {file : PartitionedFile V} (scans : file ∈ files ∨ ∃ own ∈ plan, own.Scans file) :
    (withScan plan (.source files indices)).Scans file := by
  cases plan with
  | none => exact scans.elim id fun ⟨_, absent, _⟩ => nomatch absent
  | some plan =>
    rcases scans with member | ⟨own, same, scans⟩
    · exact .inr member
    · rw [Option.some.inj same]
      exact .inl scans

variable {context : ScanContext V}

theorem ScannedUnder.append {done : List (ContentFile V)} {file : PartitionedFile V}
    (under : ScannedUnder valueToScalarvalue context dataFiles done file)
    (more : List (ContentFile V)) :
    ScannedUnder valueToScalarvalue context dataFiles (done ++ more) file := by
  obtain ⟨within, delete, member, later, made⟩ := under
  exact ⟨within, delete, List.mem_append_left _ member, later, made⟩

/-- One equality delete of a group. -/
theorem equalityStep_reconciles {projection : List Nat} {done : List (ContentFile V)}
    {before after : Option (ScanPlan V) × List (ContentFile V)} {delete : ContentFile V}
    (reconciles : Reconciles valueToScalarvalue context projection dataFiles done before)
    (run : context.equalityStep valueToScalarvalue projection before delete = .ok after) :
    Reconciles valueToScalarvalue context projection dataFiles (done ++ [delete]) after := by
  obtain ⟨files, generated, run⟩ := bind_eq_ok.mp run
  obtain ⟨deleteFile, -, run⟩ := bind_eq_ok.mp run
  obtain ⟨on, -, run⟩ := bind_eq_ok.mp run
  cases run
  have earlier := mapM_eq_ok.mp generated
  -- The files that are scanned under this delete.
  have scan : ∀ made ∈ files,
      ScannedUnder valueToScalarvalue context dataFiles (done ++ [delete]) made := by
    intro made member
    obtain ⟨file, taken, run⟩ := exists_of_mem_forall₂ earlier member
    obtain ⟨rfl, -⟩ := partitionedFile_values run
    refine ⟨reconciles.within _ (List.takeWhile_subset _ taken), delete,
      List.mem_append_right _ List.mem_cons_self, ?_, run⟩
    have before := List.mem_takeWhile_imp taken
    exact of_decide_eq_true before
  constructor
  · exact reconciles.sorted.sublist (List.dropWhile_sublist _)
  · exact fun file member => reconciles.within file (List.dropWhile_subset _ member)
  · intro file member other among
    rcases List.mem_append.mp among with earlier | last
    · exact reconciles.after file (List.dropWhile_subset _ member) other earlier
    · rw [List.mem_singleton.mp last]
      exact le_of_mem_dropWhile reconciles.sorted member
  · intro plan own
    obtain rfl := Option.some.inj own
    refine ⟨ScanPlan.Unfiltered.withScan (fun plan acc => (reconciles.planned plan acc).1) _ _, ?_⟩
    refine ScanPlan.Over.withScan (fun plan acc => ?_) scan
    exact (reconciles.planned plan acc).2.mono fun file under => under.append _
  · intro file member
    rcases reconciles.scanned file member with left | ⟨plan, acc, made, scans, source⟩
    · rw [← List.takeWhile_append_dropWhile (p := fun file : ContentFile V =>
        decide (file.sequenceNumber < delete.sequenceNumber)) (l := before.2)] at left
      rcases List.mem_append.mp left with taken | still
      · obtain ⟨made, among, run⟩ := exists_of_mem_forall₂ earlier.flip taken
        obtain ⟨source, -⟩ := partitionedFile_values run
        exact .inr ⟨_, rfl, made, scans_withScan (.inl among), source⟩
      · exact .inl still
    · exact .inr ⟨_, rfl, made, scans_withScan (.inr ⟨plan, acc, scans⟩), source⟩

/-! ### Position deletes -/

/-- A deletion vector that is loaded has a size. -/
theorem recordCount_of_checkDeletionVector {delete : ContentFile V} {checked : Unit}
    (run : checkDeletionVector delete = .ok checked) : 0 ≤ delete.entry.dataFile.recordCount := by
  unfold checkDeletionVector at run
  dsimp only at run
  split at run
  · cases run
  · cases run
  · obtain ⟨-, run⟩ := guard_eq_ok.mp run
    obtain ⟨-, run⟩ := guard_eq_ok.mp run
    obtain ⟨-, run⟩ := guard_eq_ok.mp run
    obtain ⟨natural, -⟩ := guard_eq_ok.mp run
    exact Int.not_lt.mp natural

/-- Position deletes are applied to a plan. -/
theorem applyPositionDeletes_spec {plan applied : ScanPlan V} {deletes : List (ContentFile V)}
    {active : List String} {columns : PositionDeleteDataColumns}
    (run : applyPositionDeletes plan deletes active columns = .ok applied)
    (unfiltered : plan.Unfiltered) :
    (applied.Filters fun found => found = columns) ∧
    (∀ indices kind, plan.Over indices kind → applied.Over indices kind) ∧
    ∀ file, plan.Scans file → applied.Scans file := by
  obtain ⟨files, -, run⟩ := bind_eq_ok.mp run
  obtain ⟨_, checked, run⟩ := bind_eq_ok.mp run
  obtain ⟨_, -, run⟩ := bind_eq_ok.mp run
  have filters : plan.Filters fun found => found = columns :=
    unfiltered.mono fun _ absent => absent.elim
  have sizes : ∀ delete ∈ files.2, 0 ≤ delete.entry.dataFile.recordCount := by
    intro delete member
    obtain ⟨_, -, run⟩ := exists_of_mem_forall₂ (mapM_eq_ok.mp checked).flip member
    exact recordCount_of_checkDeletionVector run
  cases run
  cases files.2.isEmpty <;> cases files.1.isEmpty
  · exact ⟨⟨rfl, sizes, filters⟩, fun _ _ over_ => over_, fun _ scans => scans⟩
  · exact ⟨⟨rfl, sizes, filters⟩, fun _ _ over_ => over_, fun _ scans => scans⟩
  · exact ⟨filters, fun _ _ over_ => over_, fun _ scans => scans⟩
  · exact ⟨filters, fun _ _ over_ => over_, fun _ scans => scans⟩

/-- A file of a group with deletes: under the manifest of a delete that is after it, or alone. -/
def ScannedInGroup (valueToScalarvalue : V → Except DataFusionError (ScalarValue V))
    (context : ScanContext V) (dataFiles deletes : List (ContentFile V))
    (file : PartitionedFile V) : Prop :=
  ScannedUnder valueToScalarvalue context dataFiles deletes file ∨
    ScannedAlone valueToScalarvalue context dataFiles deletes file

/-- The projection of a group extends that of the scan. -/
theorem groupProjection_spec {index : PartitionDeleteFileIndex V} {projection : List Nat}
    (run : context.groupProjection index = .ok (projection, columns)) :
    context.scanProjection <+: projection ∧ ∀ found ∈ columns, ∃ own,
      context.positionDeleteDataColumns = some own ∧ own.project projection = .ok found := by
  have extended : context.scanProjection <+: context.equalityProjection index.equalityDeletes :=
    foldl_addIndex_extends _ _
  unfold ScanContext.groupProjection at run
  dsimp only at run
  split at run
  · cases run
    exact ⟨extended, fun _ absent => nomatch absent⟩
  · split at run
    · cases run
    · rename_i own found
      obtain ⟨projected, project, run⟩ := bind_eq_ok.mp run
      cases run
      refine ⟨extended.trans (foldl_addIndex_extends _ _), fun other same => ?_⟩
      obtain rfl := Option.some.inj same
      exact ⟨own, found, project⟩

/-- A finished plan projects the plan of the group, with its position deletes applied. -/
theorem finishGroup_spec {deletes : List (ContentFile V)} {active : List String}
    {finished : ScanPlan V} (run : finishGroup context plan deletes active columns = .ok finished) :
    ∃ own, plan = some own ∧
      ((columns = none ∧ finished = .projection context.outputs own) ∨
        ∃ found applied, columns = some found ∧
          applyPositionDeletes own deletes active found = .ok applied ∧
          finished = .projection context.outputs applied) := by
  cases plan with
  | none => cases run
  | some own =>
    refine ⟨own, rfl, ?_⟩
    cases columns with
    | none =>
      cases run
      exact .inl ⟨rfl, rfl⟩
    | some found =>
      obtain ⟨applied, applies, rfl⟩ := map_eq_ok.mp run
      exact .inr ⟨found, applied, rfl, applies, rfl⟩

/-- The plan of a group of files with deletes. -/
theorem groupPlan_spec {index : PartitionDeleteFileIndex V} {plan : ScanPlan V}
    (run : groupPlan valueToScalarvalue context dataFiles index = .ok plan) :
    ∃ inner projection, plan = .projection context.outputs inner ∧
      context.scanProjection <+: projection ∧
      inner.Over projection (ScannedInGroup valueToScalarvalue context dataFiles
        index.equalityDeletes) ∧
      (inner.Filters fun found => ∃ columns, context.positionDeleteDataColumns = some columns ∧
        columns.project projection = .ok found) ∧
      ∀ file ∈ dataFiles, ∃ made, inner.Scans made ∧ made.source = file := by
  obtain ⟨⟨projection, columns⟩, projected, run⟩ := bind_eq_ok.mp run
  obtain ⟨⟨joined, left⟩, folded, run⟩ := bind_eq_ok.mp run
  obtain ⟨additional, generated, run⟩ := bind_eq_ok.mp run
  obtain ⟨extended, found⟩ := groupProjection_spec projected
  have reconciles : Reconciles valueToScalarvalue context projection (sortBySequence dataFiles)
      (sortBySequence index.equalityDeletes) (joined, left) := by
    refine foldlM_prefix_invariant
      (Reconciles valueToScalarvalue context projection (sortBySequence dataFiles)) ?_ folded ?_
    · exact fun _ _ _ _ _ before step => equalityStep_reconciles before step
    · exact ⟨sortBySequence_sorted dataFiles, fun _ member => member, (fun _ _ _ absent =>
        nomatch absent), (fun _ absent => nomatch absent), fun _ member => .inl member⟩
  -- The files that no delete is after.
  have alone : ∀ made ∈ additional, ScannedInGroup valueToScalarvalue context dataFiles
      index.equalityDeletes made := by
    intro made member
    obtain ⟨file, among, run⟩ := exists_of_mem_forall₂ (mapM_eq_ok.mp generated) member
    obtain ⟨rfl, -⟩ := partitionedFile_values run
    refine .inr ⟨mem_sortBySequence.mp (reconciles.within _ among), fun delete within => ?_, run⟩
    exact Int.not_lt.mpr (reconciles.after _ among delete (mem_sortBySequence.mpr within))
  have under : ∀ made, ScannedUnder valueToScalarvalue context (sortBySequence dataFiles)
      (sortBySequence index.equalityDeletes) made →
        ScannedInGroup valueToScalarvalue context dataFiles index.equalityDeletes made := by
    rintro made ⟨within, delete, member, later, run⟩
    exact .inl ⟨mem_sortBySequence.mp within, delete, mem_sortBySequence.mp member, later, run⟩
  have whole : ∀ plan ∈ withAdditional joined additional projection, plan.Unfiltered ∧
      plan.Over projection (ScannedInGroup valueToScalarvalue context dataFiles
        index.equalityDeletes) ∧
      ∀ file ∈ dataFiles, ∃ made, plan.Scans made ∧ made.source = file := by
    intro plan here
    unfold withAdditional at here
    split at here
    · rename_i empty
      obtain ⟨unfiltered, over_⟩ := reconciles.planned plan here
      refine ⟨unfiltered, over_.mono under, fun file member => ?_⟩
      rcases reconciles.scanned file (mem_sortBySequence.mpr member) with
        remains | ⟨own, acc, made, scans, source⟩
      · obtain ⟨made, among, -⟩ := exists_of_mem_forall₂ (mapM_eq_ok.mp generated).flip remains
        rw [List.isEmpty_iff.mp empty] at among
        cases among
      · obtain rfl := Option.some.inj (here.symm.trans acc)
        exact ⟨made, scans, source⟩
    · obtain rfl := Option.some.inj here
      refine ⟨ScanPlan.Unfiltered.withScan (fun plan acc => (reconciles.planned plan acc).1) _ _,
        ScanPlan.Over.withScan (fun plan acc => (reconciles.planned plan acc).2.mono under) alone,
        fun file member => ?_⟩
      rcases reconciles.scanned file (mem_sortBySequence.mpr member) with
        remains | ⟨own, acc, made, scans, source⟩
      · obtain ⟨made, among, run⟩ := exists_of_mem_forall₂ (mapM_eq_ok.mp generated).flip remains
        exact ⟨made, scans_withScan (.inl among), (partitionedFile_values run).1⟩
      · exact ⟨made, scans_withScan (.inr ⟨own, acc, scans⟩), source⟩
  obtain ⟨plan, planned, ⟨-, rfl⟩ | ⟨own, applied, same, applies, rfl⟩⟩ := finishGroup_spec run
  · obtain ⟨unfiltered, over_, scans⟩ := whole plan planned
    exact ⟨plan, projection, rfl, extended, over_,
      unfiltered.mono (fun _ absent => absent.elim), scans⟩
  · obtain ⟨unfiltered, over_, scans⟩ := whole plan planned
    obtain ⟨filters, overs, scanned⟩ := applyPositionDeletes_spec applies unfiltered
    refine ⟨applied, projection, rfl, extended, overs _ _ over_, ?_, fun file member => ?_⟩
    · refine filters.mono fun columns equal => ?_
      rw [equal]
      exact found own same
    · obtain ⟨made, scans, source⟩ := scans file member
      exact ⟨made, scanned made scans, source⟩

/-! ### Scans -/

namespace TableScan

variable (scan : TableScan V)

/-- Where a file of the scan belongs. -/
def scope [DecidableEq V] (file : ContentFile V) : Option (FileScope V) :=
  scopeIn scan.specIdsByManifest scan.specs scan.config.scanChangedDataFiles file

/-- An equality delete applies to a data file: it is of its partition or of every one, and has a
higher sequence number. -/
def Applies [DecidableEq V] (delete file : ContentFile V) : Prop :=
  file.sequenceNumber < delete.sequenceNumber ∧ ∃ own, scan.scope file = some (.data own) ∧
    (scan.scope delete = some (.equality own) ∨ scan.scope delete = some .globalEquality)

/-- A manifest has a live entry of a data file. -/
def Lists (manifestPath filePath : String) : Prop :=
  ∃ manifest ∈ scan.manifests, manifest.row.manifestPath = manifestPath ∧
    ∃ entry ∈ manifest.entries, entry.status ≠ .deleted ∧ entry.dataFile.content = .data ∧
      entry.dataFile.filePath = filePath

/-- The value of a file in the first included partition field of a name. -/
def partitionNamed (valueToScalarvalue : V → Except DataFusionError (ScalarValue V))
    (file : ContentFile V) (name : String) : Option (ScalarValue V) :=
  (includedScalars valueToScalarvalue file scan.includePartitionValues).toOption.bind fun tuple =>
    firstNamed (scan.partitionFields.zip tuple) name

/-- The two path columns of a row are right. -/
def RowAttributed (columns : List String) (origin : ContentFile V) (row : List (ScalarValue V)) :
    Prop :=
  (∀ cell, (dataFilePathColumn, cell) ∈ columns.zip row →
    cell = .utf8 origin.entry.dataFile.filePath) ∧
  ∀ cell, (manifestFilePathColumn, cell) ∈ columns.zip row →
    ∃ path, cell = .utf8 path ∧ scan.Lists path origin.entry.dataFile.filePath

/-- A data file whose rows are attributed to it and its manifest: that has it as a live entry, and
no equality delete applies.  A partition field that is called like one of the columns holds what
the column should. -/
structure Attributable [DecidableEq V]
    (valueToScalarvalue : V → Except DataFusionError (ScalarValue V)) (files : List (ContentFile V))
    (file : ContentFile V) : Prop where
  dataFilePath : ∀ cell, scan.partitionNamed valueToScalarvalue file dataFilePathColumn =
    some cell → cell = .utf8 file.entry.dataFile.filePath
  partitionField : ∀ cell, scan.partitionNamed valueToScalarvalue file manifestFilePathColumn =
    some cell → ∃ path, cell = .utf8 path ∧ scan.Lists path file.entry.dataFile.filePath
  manifestFilePath : scan.partitionNamed valueToScalarvalue file manifestFilePathColumn = none →
    scan.Lists file.manifestPath file.entry.dataFile.filePath ∧
      ∀ delete ∈ files, ¬ scan.Applies delete file

end TableScan

section Scanned

variable [DecidableEq V] {scan : TableScan V} {files : List (ContentFile V)}
  {shuffle : List (PartitionKey V × List (ContentFile V)) →
    List (PartitionKey V × List (ContentFile V))}

/-- The equality deletes in the group of a data file are those of its partition and the global
ones. -/
theorem groupContentFiles_equality (shuffles : ∀ groups, (shuffle groups).Perm groups)
    {data : HashMap (PartitionKey V) (List (ContentFile V))}
    {deletes : HashMap (PartitionKey V) (PartitionDeleteFileIndex V)}
    (run : groupContentFiles shuffle files scan.specIdsByManifest scan.specs
      scan.config.scanChangedDataFiles = .ok (data, deletes)) :
    (Grouping.contents data.iter).Perm
      (files.filter fun file => (scan.scope file).any FileScope.isData) ∧
    ∀ key group, data.lookup key = some group → ∀ file ∈ group, ∀ delete,
      (delete ∈ (deletesAt deletes key).equalityDeletes ∧
        file.sequenceNumber < delete.sequenceNumber) ↔
      delete ∈ files ∧ scan.Applies delete file := by
  obtain ⟨groups, collects, rfl, -, copied⟩ := groupContentFiles_spec run
  have listed : (Grouping.contents (HashMap.iter (mergedGroups shuffle groups.data
      groups.localDeletes groups.globalEqualityDeletes))).Perm
        (files.filter fun file => (scan.scope file).any FileScope.isData) :=
    (contents_mergedGroups shuffles).trans collects.contents
  refine ⟨listed, fun key group found file member delete => ?_⟩
  have within : file ∈ files ∧ (scan.scope file).any FileScope.isData = true := by
    refine List.mem_filter.mp (listed.mem_iff.mp ?_)
    exact Grouping.mem_contents.mpr ⟨(key, group), HashMap.mem_iter_iff.mpr found, member⟩
  obtain ⟨own, belongs⟩ : ∃ own, scan.scope file = some (.data own) := by
    cases scope : scan.scope file with
    | none =>
      rw [scope] at within
      cases within.2
    | some scope_ =>
      rw [scope] at within
      cases scope_ with
      | data own => exact ⟨own, rfl⟩
      | globalEquality => cases within.2
      | equality _ => cases within.2
      | position _ => cases within.2
  have here := copied key (AList.lookup_isSome.mp (by rw [found]; rfl))
  have global : delete ∈ groups.globalEqualityDeletes ↔
      delete ∈ files ∧ scan.scope delete = some .globalEquality := by
    rw [collects.global]
    exact mem_ofScope
  have local_ : delete ∈ (deletesAt groups.localDeletes key).equalityDeletes ↔
      delete ∈ files ∧ scan.scope delete = some (.equality own) := by
    constructor
    · intro among
      have collected : delete ∈ files ∧ scan.scope delete = some (.equality key) := by
        rw [ContentGroups.localDeletes, deletesAt_retain] at among
        split at among
        · rw [collects.equality] at among
          exact mem_ofScope.mp among
        · cases among
      have same := (collects.local_iff shuffles found member belongs collected.1).1 collected.2
      rw [same.mp among] at collected
      exact collected
    · rintro ⟨among, scope⟩
      exact ((collects.local_iff shuffles found member belongs among).1 scope).mpr rfl
  rw [here, List.mem_append, global, local_, TableScan.Applies, belongs]
  constructor
  · rintro ⟨⟨among, scope⟩ | ⟨among, scope⟩, later⟩
    · exact ⟨among, later, own, rfl, .inl scope⟩
    · exact ⟨among, later, own, rfl, .inr scope⟩
  · rintro ⟨among, later, other, same, scope⟩
    obtain rfl : own = other := FileScope.data.inj (Option.some.inj same)
    exact ⟨scope.imp (fun scope => ⟨among, scope⟩) fun scope => ⟨among, scope⟩, later⟩

/-- How a scan scans a data file: with the path of the manifest of a delete that applies to it, or
of its own where none does. -/
def ScannedFrom (valueToScalarvalue : V → Except DataFusionError (ScalarValue V))
    (scan : TableScan V) (context : ScanContext V) (files : List (ContentFile V))
    (made : PartitionedFile V) : Prop :=
  (made.source ∈ files ∧ (scan.scope made.source).any FileScope.isData = true) ∧
  ((∃ delete ∈ files, scan.Applies delete made.source ∧
      context.partitionedFile valueToScalarvalue made.source delete.manifestPath = .ok made) ∨
    ((∀ delete ∈ files, ¬ scan.Applies delete made.source) ∧
      context.ownFile valueToScalarvalue made.source = .ok made))

/-- A plan of a scan: a projection of a plan, or a scan with the projection of all. -/
structure Projected (context : ScanContext V) (kind : PartitionedFile V → Prop)
    (plan inner : ScanPlan V) (projection : List Nat) : Prop where
  extended : context.scanProjection <+: projection
  all : inner.Over projection kind
  filters : inner.Filters fun found => ∃ columns,
    context.positionDeleteDataColumns = some columns ∧ columns.project projection = .ok found
  shape : plan = .projection context.outputs inner ∨
    (plan = inner ∧ projection = context.scanProjection ∧
      ∃ made, inner = .source made context.scanProjection)

omit [DecidableEq V] in
/-- The plan of files without deletes. -/
theorem plainPlan_spec {context : ScanContext V} {kind : PartitionedFile V → Prop}
    {made : List (PartitionedFile V)} (every : ∀ file ∈ made, kind file) :
    (∀ plan ∈ plainPlan context made, ∃ inner projection,
      Projected context kind plan inner projection) ∧
    ∀ file ∈ made, ∃ plan ∈ plainPlan context made, plan.Scans file := by
  unfold plainPlan
  split
  · rename_i empty
    refine ⟨(fun _ absent => nomatch absent), fun file member => ?_⟩
    rw [List.isEmpty_iff.mp empty] at member
    cases member
  · have projected : ∀ plan, (plan = .projection context.outputs
        (.source made context.scanProjection) ∨ plan = .source made context.scanProjection) →
        ∃ inner projection, Projected context kind plan inner projection := by
      intro plan shape
      refine ⟨.source made context.scanProjection, context.scanProjection, List.prefix_refl _,
        ⟨rfl, every⟩, trivial, ?_⟩
      exact shape.imp id fun bare => ⟨bare, rfl, made, rfl⟩
    split
    · refine ⟨fun plan only => projected plan (.inl (List.mem_singleton.mp only)), ?_⟩
      exact fun file member => ⟨_, List.mem_singleton_self _, member⟩
    · refine ⟨fun plan only => projected plan (.inr (List.mem_singleton.mp only)), ?_⟩
      exact fun file member => ⟨_, List.mem_singleton_self _, member⟩

/-- The plans of a scan, and the files they scan. -/
theorem plans_spec (shuffles : ∀ groups, (shuffle groups).Perm groups) {context : ScanContext V}
    {plans : List (ScanPlan V)}
    (run : scan.plans valueToScalarvalue shuffle files = .ok (context, plans)) :
    (∃ hasPositionDeletes, scan.context hasPositionDeletes = .ok context) ∧
    (∀ plan ∈ plans, ∃ inner projection, Projected context
      (ScannedFrom valueToScalarvalue scan context files) plan inner projection) ∧
    ∀ file ∈ files, (scan.scope file).any FileScope.isData = true →
      ∃ plan ∈ plans, ∃ made, plan.Scans made ∧ made.source = file := by
  obtain ⟨⟨data, deletes⟩, grouped, run⟩ := bind_eq_ok.mp run
  obtain ⟨context, fixed, run⟩ := bind_eq_ok.mp run
  obtain ⟨groupPlans, planned, run⟩ := bind_eq_ok.mp run
  obtain ⟨unattested, plain, run⟩ := bind_eq_ok.mp run
  obtain ⟨attested, sorted, run⟩ := bind_eq_ok.mp run
  cases run
  obtain ⟨listed, equality⟩ := groupContentFiles_equality shuffles grouped
  -- A file of a group is a data file of the scan.
  have within : ∀ key group, data.lookup key = some group → ∀ file ∈ group,
      file ∈ files ∧ (scan.scope file).any FileScope.isData = true := by
    intro key group found file member
    refine List.mem_filter.mp (listed.mem_iff.mp ?_)
    exact Grouping.mem_contents.mpr ⟨(key, group), HashMap.mem_iter_iff.mpr found, member⟩
  have inGroup : ∀ key index, deletes.lookup key = some index → ∀ made,
      ScannedInGroup valueToScalarvalue context ((data.lookup key).getD []) index.equalityDeletes
        made → ScannedFrom valueToScalarvalue scan context files made := by
    intro key index present made scanned
    have at_ : deletesAt deletes key = index := by
      rw [deletesAt, present]
      rfl
    have member : made.source ∈ (data.lookup key).getD [] := scanned.elim (·.1) (·.1)
    cases found : data.lookup key with
    | none =>
      rw [found] at member
      cases member
    | some group =>
      rw [found] at member
      have applies := equality key group found _ member
      rw [at_] at applies
      refine ⟨within key group found _ member, scanned.imp ?_ ?_⟩
      · rintro ⟨-, delete, among, later, run⟩
        obtain ⟨listed, applied⟩ := (applies delete).mp ⟨among, later⟩
        exact ⟨delete, listed, applied, run⟩
      · rintro ⟨-, alone, run⟩
        refine ⟨fun delete listed applied => ?_, run⟩
        obtain ⟨among, later⟩ := (applies delete).mpr ⟨listed, applied⟩
        exact alone delete among later
  -- The files of the groups without deletes.
  let rest := (data.iter.filter fun group => (deletes.lookup group.1).isNone).flatMap (·.2)
  have alone : ∀ {chosen : ContentFile V → Bool} {own : List (PartitionedFile V)},
      (rest.filter chosen).mapM (context.ownFile valueToScalarvalue) = .ok own →
      ∀ made ∈ own, ScannedFrom valueToScalarvalue scan context files made := by
    intro chosen own generated made member
    obtain ⟨file, among, run⟩ := exists_of_mem_forall₂ (mapM_eq_ok.mp generated) member
    obtain ⟨rfl, -⟩ := partitionedFile_values run
    obtain ⟨⟨key, group⟩, without, there⟩ := List.mem_flatMap.mp (List.mem_of_mem_filter among)
    obtain ⟨present, absent⟩ := List.mem_filter.mp without
    have found := HashMap.mem_iter_iff.mp present
    refine ⟨within key group found _ there, .inr ⟨fun delete listed applied => ?_, run⟩⟩
    obtain ⟨among, -⟩ := (equality key group found _ there delete).mpr ⟨listed, applied⟩
    rw [deletesAt, Option.isNone_iff_eq_none.mp absent] at among
    cases among
  refine ⟨⟨_, fixed⟩, ?_, ?_⟩
  · intro plan member
    rcases List.mem_append.mp member with member | last
    · rcases List.mem_append.mp member with inGroups | plainly
      · obtain ⟨⟨key, index⟩, present, run⟩ :=
          exists_of_mem_forall₂ (mapM_eq_ok.mp planned) inGroups
        obtain ⟨inner, projection, rfl, extended, all, filters, -⟩ := groupPlan_spec run
        exact ⟨inner, projection, extended,
          all.mono (inGroup key index (HashMap.mem_iter_iff.mp present)), filters, .inl rfl⟩
      · exact (plainPlan_spec (alone plain)).1 plan plainly
    · exact (plainPlan_spec (alone sorted)).1 plan last
  · intro file member isData
    have listedFile := listed.mem_iff.mpr (List.mem_filter.mpr ⟨member, isData⟩)
    obtain ⟨⟨key, group⟩, present, there⟩ := Grouping.mem_contents.mp listedFile
    have found := HashMap.mem_iter_iff.mp present
    cases at_ : deletes.lookup key with
    | some index =>
      obtain ⟨plan, among, run⟩ := exists_of_mem_forall₂ (mapM_eq_ok.mp planned).flip
        (HashMap.mem_iter_iff.mpr at_)
      obtain ⟨inner, projection, rfl, -, -, -, scans⟩ := groupPlan_spec run
      obtain ⟨made, scanned, source⟩ := scans file (by rw [found]; exact there)
      exact ⟨_, List.mem_append_left _ (List.mem_append_left _ among), made, scanned, source⟩
    | none =>
      have inRest : file ∈ rest := List.mem_flatMap.mpr ⟨(key, group),
        List.mem_filter.mpr ⟨present, Option.isNone_iff_eq_none.mpr at_⟩, there⟩
      cases attests : scan.attests file with
      | false =>
        obtain ⟨made, among, run⟩ := exists_of_mem_forall₂ (mapM_eq_ok.mp plain).flip
          (List.mem_filter.mpr ⟨inRest, by rw [attests]; rfl⟩)
        obtain ⟨plan, listed, scans⟩ := (plainPlan_spec (alone plain)).2 made among
        exact ⟨plan, List.mem_append_left _ (List.mem_append_right _ listed), made, scans,
          (partitionedFile_values run).1⟩
      | true =>
        obtain ⟨made, among, run⟩ := exists_of_mem_forall₂ (mapM_eq_ok.mp sorted).flip
          (List.mem_filter.mpr ⟨inRest, attests⟩)
        obtain ⟨plan, listed, scans⟩ := (plainPlan_spec (alone sorted)).2 made among
        exact ⟨plan, List.mem_append_right _ listed, made, scans, (partitionedFile_values run).1⟩

end Scanned

/-! ### Rows -/

/-- What a scan has fixed. -/
theorem TableScan.context_spec {scan : TableScan V} {hasPositionDeletes : Bool}
    (run : scan.context hasPositionDeletes = .ok context) :
    context.config = scan.config ∧ context.schema = scan.schema ∧
    context.includePartitionValues = scan.includePartitionValues ∧
    context.columns = scanColumns context.config (context.config.fileColumns context.schema)
      scan.partitionFields context.hasPositionDeletes ∧
    context.changeSequences = scan.changeManifestSequenceNumbers ∧
    Projects context.config (context.columns.names (context.config.fileColumns context.schema))
      scan.requested (context.scanProjection, context.outputs) := by
  obtain ⟨⟨scanProjection, outputs⟩, projected, run⟩ := bind_eq_ok.mp run
  cases run
  exact ⟨rfl, rfl, rfl, rfl, rfl, rowLineageProjection_spec projected⟩

/-- A column of the scan that `row_lineage_projection` does not compute. -/
def PlainColumn (name : String) : Prop :=
  name ≠ rowIdColumn ∧ name ≠ lastUpdatedSequenceNumberColumn

section Rows

variable {context : ScanContext V} {requested : List String} {kind : PartitionedFile V → Prop}
  {plan inner : ScanPlan V} {projection : List Nat}

theorem getD_map_getD {indices : List Nat} {index scanIndex : Nat}
    (here : indices[index]? = some scanIndex) (table : List (ScalarValue V)) :
    (indices.map fun scanIndex => table.getD scanIndex .null).getD index .null =
      table.getD scanIndex .null := by
  rw [List.getD_eq_getElem?_getD, List.getElem?_map, here]
  rfl

theorem columns_source (made : List (PartitionedFile V)) (indices : List Nat) :
    (ScanPlan.source made indices).columns context = context.scanProjection.map fun index =>
      (context.columns.names (context.config.fileColumns context.schema)).getD index "" := rfl

/-- A plain column of a row is the first column of its name in the scan. -/
theorem Projected.cell_of_outputs
    (projects : Projects context.config
      (context.columns.names (context.config.fileColumns context.schema)) requested
      (context.scanProjection, context.outputs))
    (projected : Projected context kind plan inner projection) {stored : StoredRows V}
    {origin : ContentFile V} {row : List (ScalarValue V)}
    (outputs : plan.Outputs (context.config.fileColumns context.schema) stored origin row)
    {name : String} (plain : PlainColumn name) {cell : ScalarValue V}
    (member : (name, cell) ∈ (plan.columns context).zip row) :
    ∃ made, kind made ∧ made.source = origin ∧ ∃ cells position scanIndex,
      (context.columns.names (context.config.fileColumns context.schema)).findIdx?
        (fun column => column = name) = some scanIndex ∧
      cell = (made.cells (context.config.fileColumns context.schema) cells position).getD
        scanIndex .null := by
  rcases projected.shape with rfl | ⟨rfl, rfl, files, rfl⟩
  · obtain ⟨scanned, outputs, rfl⟩ := outputs
    obtain ⟨made, isKind, source, cells, position, rfl⟩ := projected.all.outputs outputs
    rw [ScanPlan.columns, List.zip_map'] at member
    obtain ⟨output, among, same⟩ := List.mem_map.mp member
    obtain ⟨rfl, rfl⟩ := Prod.mk.inj same
    obtain ⟨index, scanIndex, column, here, found⟩ :=
      projects.plain output among plain.1 plain.2
    refine ⟨made, isKind, source, cells, position, scanIndex, found, ?_⟩
    rw [column]
    exact getD_map_getD (getElem?_of_extends projected.extended here) _
  · obtain ⟨made, isKind, source, cells, position, rfl⟩ := projected.all.outputs outputs
    rw [columns_source, List.zip_map'] at member
    obtain ⟨index, among, same⟩ := List.mem_map.mp member
    obtain ⟨rfl, rfl⟩ := Prod.mk.inj same
    obtain ⟨name, here, found⟩ := projects.firsts index among
    refine ⟨made, isKind, source, cells, position, index, ?_, rfl⟩
    rw [List.getD_eq_getElem?_getD, here]
    exact found

theorem projectedIndex_eq_ok {scanIndex index : Nat}
    (run : projectedIndex projection scanIndex = .ok index) :
    projection[index]? = some scanIndex := by
  unfold projectedIndex at run
  split at run
  · rename_i found
    cases run
    obtain ⟨within, same, -⟩ := List.findIdx?_eq_some_iff_getElem.mp found
    rw [List.getElem?_eq_getElem within, of_decide_eq_true same]
  · cases run

/-- The filters of a plan find the path and the position of the row. -/
theorem fits_firstRow {valueToScalarvalue : V → Except DataFusionError (ScalarValue V)}
    {partitionFields : List String}
    (columns : context.columns = scanColumns context.config
      (context.config.fileColumns context.schema) partitionFields context.hasPositionDeletes)
    {made : PartitionedFile V} {manifestPath : String}
    (run : context.partitionedFile valueToScalarvalue made.source manifestPath = .ok made)
    (changes : (context.changeSequences.bind fun sequences =>
      sequences.lookup made.source.manifestPath).isSome = context.config.scanChangedDataFiles)
    (tuples : ∀ tuple, includedScalars valueToScalarvalue made.source
      context.includePartitionValues = .ok tuple → tuple.length = partitionFields.length)
    {found : PositionDeleteDataColumns}
    (fits : ∃ columns, context.positionDeleteDataColumns = some columns ∧
      columns.project projection = .ok found) :
    (made.firstRow (context.config.fileColumns context.schema) projection).getD found.filePath
      .null = .utf8 made.source.entry.dataFile.filePath ∧
    (made.firstRow (context.config.fileColumns context.schema) projection).getD found.rowPosition
      .null = .int64 0 := by
  obtain ⟨own, placed, run_⟩ := fits
  obtain ⟨filePath, pathIndex, placed⟩ := Option.bind_eq_some_iff.mp placed
  obtain ⟨⟨name, position⟩, positionIndex, placed⟩ := Option.bind_eq_some_iff.mp placed
  obtain ⟨sequence, -, placed⟩ := Option.bind_eq_some_iff.mp placed
  cases placed
  obtain ⟨filePathColumn, atFilePath, run_⟩ := bind_eq_ok.mp run_
  obtain ⟨rowPositionColumn, atRowPosition, run_⟩ := bind_eq_ok.mp run_
  obtain ⟨_, -, run_⟩ := bind_eq_ok.mp run_
  cases run_
  have hasPositionDeletes : context.hasPositionDeletes = true := by
    cases without : context.hasPositionDeletes with
    | true => rfl
    | false =>
      rw [columns, without] at pathIndex
      cases pathIndex
  have path := cells_at_filePath hasPositionDeletes columns tuples run pathIndex (fun _ => .null) 0
  have row := cells_at_rowPosition columns changes tuples run positionIndex (fun _ => .null) 0
  constructor
  · refine (getD_map_getD (projectedIndex_eq_ok atFilePath) _).trans ?_
    rw [List.getD_eq_getElem?_getD, path]
    rfl
  · refine (getD_map_getD (projectedIndex_eq_ok atRowPosition) _).trans ?_
    rw [List.getD_eq_getElem?_getD, row]
    rfl

/-- The row that a plan outputs of a file, and a requested column of it. -/
theorem Projected.outputs_cell
    (projects : Projects context.config
      (context.columns.names (context.config.fileColumns context.schema)) requested
      (context.scanProjection, context.outputs))
    (projected : Projected context kind plan inner projection) {made : PartitionedFile V}
    (scans : plan.Scans made)
    (filters : inner.Filters fun columns =>
      (made.firstRow (context.config.fileColumns context.schema) projection).getD
        columns.filePath .null = .utf8 made.source.entry.dataFile.filePath ∧
      (made.firstRow (context.config.fileColumns context.schema) projection).getD
        columns.rowPosition .null = .int64 0)
    {name : String} (plain : PlainColumn name) (asked : name ∈ requested) :
    ∃ row, plan.Outputs (context.config.fileColumns context.schema) firstRows made.source row ∧
      ∃ scanIndex,
        (context.columns.names (context.config.fileColumns context.schema)).findIdx?
          (fun column => column = name) = some scanIndex ∧
        (name, (made.cells (context.config.fileColumns context.schema) (fun _ => .null) 0).getD
          scanIndex .null) ∈ (plan.columns context).zip row := by
  rw [← projects.names] at asked
  obtain ⟨output, among, rfl⟩ := List.mem_map.mp asked
  obtain ⟨index, scanIndex, column, here, found⟩ := projects.plain output among plain.1 plain.2
  rcases projected.shape with rfl | ⟨rfl, rfl, files, rfl⟩
  · refine ⟨_, ⟨_, ScanPlan.outputs_firstRow projected.all scans filters, rfl⟩, scanIndex, found, ?_⟩
    rw [ScanPlan.columns, List.zip_map']
    refine List.mem_map.mpr ⟨output, among, ?_⟩
    rw [column]
    exact congrArg (output.2, ·) (getD_map_getD (getElem?_of_extends projected.extended here) _)
  · refine ⟨_, ScanPlan.outputs_firstRow projected.all scans filters, scanIndex, found, ?_⟩
    rw [columns_source, PartitionedFile.firstRow, List.zip_map']
    refine List.mem_map.mpr ⟨scanIndex, List.mem_of_getElem? here, ?_⟩
    obtain ⟨within, same, -⟩ := List.findIdx?_eq_some_iff_getElem.mp found
    rw [List.getD_eq_getElem?_getD, List.getElem?_eq_getElem within]
    exact congrArg (·, _) (of_decide_eq_true same)

end Rows

/-! ### Manifests -/

/-- The number of files of a status that a manifest claims to have. -/
def ManifestListEntry.filesCount (row : ManifestListEntry V) : Status → Option Int
  | .added => row.addedFilesCount
  | .existing => row.existingFilesCount
  | .deleted => row.deletedFilesCount

/-- A scan whose output has both path columns, of manifests as the format has them: of data files
or of deletes, with tuples of their spec, and without a file of a kind of which they count none. -/
structure TracedScan (V : Type) extends TableScan V where
  enablesDataFilePath : toTableScan.config.enableDataFilePathColumn = true
  enablesManifestFilePath : toTableScan.config.enableManifestFilePathColumn = true
  requestsDataFilePath : dataFilePathColumn ∈ toTableScan.requested
  requestsManifestFilePath : manifestFilePathColumn ∈ toTableScan.requested
  distinct : (toTableScan.config.outputColumns toTableScan.schema).Nodup
  paths : (toTableScan.manifests.map fun manifest => manifest.row.manifestPath).Nodup
  contents : ∀ manifest ∈ toTableScan.manifests, ∀ entry ∈ manifest.entries,
    (entry.dataFile.content = .data ↔ manifest.row.content = .data)
  counts : ∀ manifest ∈ toTableScan.manifests, ∀ entry ∈ manifest.entries,
    manifest.row.filesCount entry.status ≠ some 0
  tuples : ∀ manifest ∈ toTableScan.manifests, ∀ spec,
    toTableScan.specs.lookup manifest.row.partitionSpecId = some spec →
      ∀ entry ∈ manifest.entries, entry.dataFile.partition.fields.length = spec.fields.length

namespace TracedScan

variable (scan : TracedScan V)

/-- Neither path column is called like a column of the data files. -/
theorem fresh {name : String}
    (path : name = dataFilePathColumn ∨ name = manifestFilePathColumn) :
    name ∉ scan.config.fileColumns scan.schema := by
  have separate : name ∉ scan.schema.fields.map (·.name) := by
    intro own
    have distinct := scan.distinct
    rw [DataFusionTableConfig.outputColumns, scan.enablesDataFilePath,
      scan.enablesManifestFilePath] at distinct
    simp only [onlyIf_true, List.append_assoc, List.nodup_append] at distinct
    rcases path with rfl | rfl
    · exact distinct.2.2 _ own _ (List.mem_append_left _ List.mem_cons_self) rfl
    · exact distinct.2.2 _ own _ (List.mem_append_right _
        (List.mem_append_left _ List.mem_cons_self)) rfl
  unfold DataFusionTableConfig.fileColumns
  rw [List.mem_append, List.mem_append, not_or, not_or]
  refine ⟨⟨separate, ?_⟩, ?_⟩
  · cases scan.config.enableRowIdColumn <;> rcases path with rfl | rfl <;> decide
  · cases scan.config.enableLastUpdatedSequenceNumberColumn <;> rcases path with rfl | rfl <;>
      decide

/-- A value that is collected by the path of a manifest. -/
theorem lookup_byManifest {β : Type} (value : ScannedManifest V → β)
    {manifest : ScannedManifest V} (member : manifest ∈ scan.manifests) :
    (HashMap.fromIter (scan.manifests.map fun manifest =>
      (manifest.row.manifestPath, value manifest))).lookup manifest.row.manifestPath =
      some (value manifest) := by
  refine HashMap.mem_iter_iff.mp ((HashMap.iter_fromIter ?_).mem_iff.mpr ?_)
  · rw [List.map_map]
    exact scan.paths
  · exact List.mem_map.mpr ⟨manifest, member, rfl⟩

variable {file : ContentFile V}

/-- The manifest of a file. -/
theorem manifest_of_mem (member : file ∈ scan.entries) :
    ∃ manifest ∈ scan.manifests, ∃ entry ∈ manifest.entries,
      file = ⟨manifest.row.manifestPath, inheritFromRow manifest.row entry⟩ := by
  obtain ⟨manifest, among, member⟩ := List.mem_flatMap.mp member
  obtain ⟨entry, within, rfl⟩ := List.mem_map.mp member
  exact ⟨manifest, among, entry, within, rfl⟩

variable [DecidableEq V]

/-- Where a file belongs says that it is scanned, what it is, and that its spec is known. -/
theorem scope_spec {own : FileScope V} (belongs : scan.scope file = some own) :
    scanManifestEntry file.entry scan.config.scanChangedDataFiles = true ∧
    ∃ specId spec, scan.specIdsByManifest.lookup file.manifestPath = some specId ∧
      scan.specs.lookup specId = some spec ∧
      (FileScope.isData own = true ↔ file.entry.dataFile.content = .data) := by
  unfold TableScan.scope scopeIn at belongs
  split at belongs
  · rename_i scanned
    refine ⟨scanned, ?_⟩
    unfold scopeOf at belongs
    split at belongs
    · cases belongs
    · rename_i specId foundId
      split at belongs
      · cases belongs
      · rename_i spec foundSpec
        refine ⟨specId, spec, foundId, foundSpec, ?_⟩
        dsimp only at belongs
        split at belongs
        · rename_i content
          cases belongs
          exact iff_of_true rfl content
        · rename_i content
          rw [content]
          split at belongs <;>
          · cases belongs
            exact iff_of_false nofun nofun
        · rename_i content
          cases belongs
          rw [content]
          exact iff_of_false nofun nofun
  · cases belongs

variable {scan} {files : List (ContentFile V)} (within : files.Sublist scan.entries)

include within

/-- The tuple of a scanned data file has a value for every included partition field. -/
theorem length_included (member : file ∈ files)
    (isData : (scan.scope file).any FileScope.isData = true) {tuple : List (ScalarValue V)}
    (included : includedScalars valueToScalarvalue file scan.includePartitionValues = .ok tuple) :
    tuple.length = scan.partitionFields.length := by
  unfold includedScalars at included
  unfold TableScan.partitionFields
  cases includes : scan.includePartitionValues with
  | false =>
    rw [includes] at included
    cases included
    rfl
  | true =>
    rw [includes, if_pos rfl] at included
    obtain ⟨manifest, among, entry, inside, rfl⟩ := scan.manifest_of_mem (within.subset member)
    obtain ⟨own, belongs, data⟩ := (Option.any_eq_true _ _).mp isData
    obtain ⟨scanned, specId, spec, foundId, foundSpec, content⟩ := scan.scope_spec belongs
    obtain rfl : specId = manifest.row.partitionSpecId := Option.some.inj
      (foundId.symm.trans (scan.lookup_byManifest (·.row.partitionSpecId) among))
    have isContent := (scan.contents manifest among entry inside).mp (content.mp data)
    have counted := scan.counts manifest among entry inside
    -- A manifest of another spec has no file that is scanned.
    have default : manifest.row.partitionSpecId = scan.defaultSpecId := by
      by_contra other
      have current := (Bool.not_eq_true' _).mp includes
      unfold hasHistoricalDataManifests at current
      have none_ := (List.any_eq_false.mp current) manifest.row (List.mem_map_of_mem among)
      unfold scanManifestEntry scanManifestStatus at scanned
      have status : (inheritFromRow manifest.row entry).status = entry.status := rfl
      rw [status] at scanned
      cases changed : scan.config.scanChangedDataFiles <;> cases state : entry.status <;>
        rw [changed, state] at scanned <;> rw [state] at counted <;>
        simp_all [ManifestListEntry.filesCount]
    rw [if_pos rfl, ← default, foundSpec, Fallible.length_mapM included]
    have same := scan.tuples manifest among spec foundSpec entry inside
    exact same.trans (List.length_map _).symm

omit [DecidableEq V] in
/-- The manifest of a file has a sequence number exactly in a scan of changes. -/
theorem isSome_changes (member : file ∈ files) :
    (scan.changeManifestSequenceNumbers.bind fun sequences =>
      sequences.lookup file.manifestPath).isSome = scan.config.scanChangedDataFiles := by
  obtain ⟨manifest, among, entry, -, rfl⟩ := scan.manifest_of_mem (within.subset member)
  unfold TableScan.changeManifestSequenceNumbers
  cases scan.config.scanChangedDataFiles with
  | false => rfl
  | true =>
    refine (congrArg Option.isSome
      (scan.lookup_byManifest (·.row.sequenceNumber) among)).trans rfl

/-- The manifest of a delete that applies lists no data file. -/
theorem not_lists_of_applies {delete : ContentFile V} (member : delete ∈ files)
    (applies : scan.Applies delete file) (path : String) :
    ¬ scan.Lists delete.manifestPath path := by
  rintro ⟨other, amongOther, samePath, entry, inside, -, content, -⟩
  obtain ⟨manifest, among, own, insideOwn, rfl⟩ := scan.manifest_of_mem (within.subset member)
  obtain rfl : other = manifest := List.inj_on_of_nodup_map scan.paths amongOther among samePath
  have isContent := (scan.contents other amongOther entry inside).mp content
  have isData := (scan.contents other amongOther own insideOwn).mpr isContent
  obtain ⟨-, key, -, scope⟩ := applies
  rcases scope with scope | scope
  · obtain ⟨-, _, _, -, -, data⟩ := scan.scope_spec scope
    cases data.mpr isData
  · obtain ⟨-, _, _, -, -, data⟩ := scan.scope_spec scope
    cases data.mpr isData

/-- The cells of a scanned file in the first columns called like the paths. -/
theorem path_cells {context : ScanContext V} {hasPositionDeletes : Bool}
    (fixed : scan.context hasPositionDeletes = .ok context) {made : PartitionedFile V}
    (scanned : made.source ∈ files ∧ (scan.scope made.source).any FileScope.isData = true)
    {manifestPath : String}
    (run : context.partitionedFile valueToScalarvalue made.source manifestPath = .ok made)
    (cells : String → ScalarValue V) (position : Nat) {name : String} {index : Nat}
    (path : name = dataFilePathColumn ∨ name = manifestFilePathColumn)
    (found : (context.columns.names (context.config.fileColumns context.schema)).findIdx?
      (fun column => column = name) = some index) :
    (made.cells (context.config.fileColumns context.schema) cells position).getD index .null =
      (scan.partitionNamed valueToScalarvalue made.source name).getD
        (if name = dataFilePathColumn then .utf8 made.source.entry.dataFile.filePath
        else .utf8 manifestPath) := by
  obtain ⟨config, schema, includes, columns, changes, -⟩ := TableScan.context_spec fixed
  obtain ⟨-, tuple, -, included, -⟩ := partitionedFile_values run
  have length : tuple.length = scan.partitionFields.length := by
    rw [includes] at included
    exact length_included within scanned.1 scanned.2 included
  have cell := cells_of_path_name (by rw [config]; exact scan.enablesDataFilePath)
    (by rw [config]; exact scan.enablesManifestFilePath) columns
    (by rw [changes, config]; exact isSome_changes within scanned.1) included length run path
    (by rw [config, schema]; exact scan.fresh path) found cells position
  rw [List.getD_eq_getElem?_getD, cell, TableScan.partitionNamed, ← includes, included]
  cases own : firstNamed (scan.partitionFields.zip tuple) name with
  | some value =>
    simp only [Except.toOption, Option.bind_some, own]
    rfl
  | none =>
    simp only [Except.toOption, Option.bind_some, own]
    rcases path with rfl | rfl
    · rfl
    · rfl

omit within

/-- **The path columns are right exactly if no equality delete applies.**  Whatever the files hold,
every row is attributed to its data file and to a manifest that lists it, exactly if every data
file that is scanned is listed by its own manifest and no equality delete applies to it. -/
theorem plans_attributed_iff (scan : TracedScan V)
    {shuffle : List (PartitionKey V × List (ContentFile V)) →
      List (PartitionKey V × List (ContentFile V))}
    (shuffles : ∀ groups, (shuffle groups).Perm groups) (within : files.Sublist scan.entries)
    {context : ScanContext V} {plans : List (ScanPlan V)}
    (run : scan.plans valueToScalarvalue shuffle files = .ok (context, plans)) :
    (∀ stored, ∀ plan ∈ plans, ∀ origin row,
      plan.Outputs (scan.config.fileColumns scan.schema) stored origin row →
        scan.RowAttributed (plan.columns context) origin row) ↔
    ∀ file ∈ files, (scan.scope file).any FileScope.isData = true →
      scan.Attributable valueToScalarvalue files file := by
  obtain ⟨⟨hasPositionDeletes, fixed⟩, projected, scans⟩ := plans_spec shuffles run
  obtain ⟨config, schema, includes, columns, changes, projects⟩ := TableScan.context_spec fixed
  have dataFile : PlainColumn dataFilePathColumn := ⟨by decide, by decide⟩
  have manifestFile : PlainColumn manifestFilePathColumn := ⟨by decide, by decide⟩
  have differ : manifestFilePathColumn ≠ dataFilePathColumn := by decide
  rw [← config, ← schema]
  constructor
  · intro attributed file member isData
    obtain ⟨plan, among, made, scanned, rfl⟩ := scans file member isData
    obtain ⟨inner, projection, isProjected⟩ := projected plan among
    have inside : inner.Scans made := by
      rcases isProjected.shape with rfl | ⟨rfl, -⟩
      · exact scanned
      · exact scanned
    obtain ⟨listed, how⟩ := isProjected.all.scans inside
    obtain ⟨manifestPath, under, madeUnder⟩ : ∃ manifestPath,
        ((∃ delete ∈ files, scan.Applies delete made.source ∧
          manifestPath = delete.manifestPath) ∨
        ((∀ delete ∈ files, ¬ scan.Applies delete made.source) ∧
          manifestPath = made.source.manifestPath)) ∧
        context.partitionedFile valueToScalarvalue made.source manifestPath = .ok made := by
      rcases how with ⟨delete, among, applies, run⟩ | ⟨alone, run⟩
      · exact ⟨_, .inl ⟨delete, among, applies, rfl⟩, run⟩
      · exact ⟨_, .inr ⟨alone, rfl⟩, run⟩
    have filters := isProjected.filters.mono fun found fits =>
      fits_firstRow columns madeUnder
        (by rw [changes, config]; exact isSome_changes within listed.1)
        (fun tuple included => by
          rw [includes] at included
          exact length_included within listed.1 listed.2 included) fits
    -- The row that `firstRows` gives the file, in either column.
    obtain ⟨row, outputs, index, found, cell⟩ := isProjected.outputs_cell projects scanned filters
      dataFile scan.requestsDataFilePath
    have right := (attributed firstRows plan among made.source row outputs).1 _ cell
    rw [path_cells within fixed listed madeUnder _ _ (.inl rfl) found] at right
    obtain ⟨row, outputs, index, found, cell⟩ := isProjected.outputs_cell projects scanned filters
      manifestFile scan.requestsManifestFilePath
    obtain ⟨path, isPath, lists⟩ :=
      (attributed firstRows plan among made.source row outputs).2 _ cell
    rw [path_cells within fixed listed madeUnder _ _ (.inr rfl) found] at isPath
    constructor
    · intro value named
      rw [named] at right
      exact right
    · intro value named
      rw [named] at isPath
      exact ⟨path, isPath, lists⟩
    · intro unnamed
      rw [unnamed, if_neg differ] at isPath
      obtain rfl : manifestPath = path := ScalarValue.utf8.inj isPath
      rcases under with ⟨delete, amongFiles, applies, rfl⟩ | ⟨alone, rfl⟩
      · exact absurd lists (not_lists_of_applies within amongFiles applies _)
      · exact ⟨lists, alone⟩
  · intro attributable stored plan among origin row outputs
    obtain ⟨inner, projection, isProjected⟩ := projected plan among
    constructor
    · intro cell member
      obtain ⟨made, ⟨listed, how⟩, rfl, cells, position, index, found, rfl⟩ :=
        isProjected.cell_of_outputs projects outputs dataFile member
      have right := attributable made.source listed.1 listed.2
      obtain ⟨manifestPath, run⟩ : ∃ manifestPath,
          context.partitionedFile valueToScalarvalue made.source manifestPath = .ok made := by
        rcases how with ⟨delete, -, -, run⟩ | ⟨-, run⟩
        · exact ⟨_, run⟩
        · exact ⟨_, run⟩
      rw [path_cells within fixed listed run cells position (.inl rfl) found]
      cases named : scan.partitionNamed valueToScalarvalue made.source dataFilePathColumn with
      | none => rfl
      | some value => exact right.dataFilePath value named
    · intro cell member
      obtain ⟨made, ⟨listed, how⟩, rfl, cells, position, index, found, rfl⟩ :=
        isProjected.cell_of_outputs projects outputs manifestFile member
      have right := attributable made.source listed.1 listed.2
      cases named : scan.partitionNamed valueToScalarvalue made.source manifestFilePathColumn with
      | some value =>
        obtain ⟨manifestPath, run⟩ : ∃ manifestPath,
            context.partitionedFile valueToScalarvalue made.source manifestPath = .ok made := by
          rcases how with ⟨delete, -, -, run⟩ | ⟨-, run⟩
          · exact ⟨_, run⟩
          · exact ⟨_, run⟩
        rw [path_cells within fixed listed run cells position (.inr rfl) found, named]
        exact right.partitionField value named
      | none =>
        obtain ⟨lists, alone⟩ := right.manifestFilePath named
        rcases how with ⟨delete, amongFiles, applies, -⟩ | ⟨-, run⟩
        · exact absurd applies (alone delete amongFiles)
        · rw [path_cells within fixed listed run cells position (.inr rfl) found, named]
          rw [Option.getD_none, if_neg differ]
          exact ⟨_, rfl, lists⟩

end TracedScan

/-! ### A delete that applies -/

/-- A manifest with one added file of an unpartitioned table. -/
def oneFileManifest (path : String) (content : ManifestContent) (sequenceNumber : Int)
    (dataFile : DataFile LongValue) : ScannedManifest LongValue where
  row := {
    formatVersion := .v2
    manifestPath := path
    partitionSpecId := 0
    content
    sequenceNumber
    minSequenceNumber := sequenceNumber
    addedSnapshotId := 1
    addedFilesCount := some 1
    existingFilesCount := some 0
    deletedFilesCount := some 0
    addedRowsCount := some 1
    existingRowsCount := some 0
    deletedRowsCount := some 0
    partitions := none
    keyMetadata := none
    firstRowId := none }
  entries := [{
    formatVersion := .v2
    status := .added
    snapshotId := none
    sequenceNumber := none
    dataFile }]

/-- A data file, and an equality delete after it. -/
def deletedScan : TracedScan LongValue where
  config := ⟨true, false, true, false, false, false⟩
  schema := ⟨[⟨1, "n", true, .primitive .long, none, none, none⟩]⟩
  defaultSpecId := 0
  specs := AList.singleton 0 ⟨0, []⟩
  manifests := [
    oneFileManifest "data" .data 1 (longFile "file" 1),
    oneFileManifest "deletes" .deletes 2 { longFile "delete" 1 with
      content := .equalityDeletes, equalityIds := some [1] }]
  declaredOrdering := none
  requested := [dataFilePathColumn, manifestFilePathColumn]
  enablesDataFilePath := rfl
  enablesManifestFilePath := rfl
  requestsDataFilePath := by decide
  requestsManifestFilePath := by decide
  distinct := by decide
  paths := by decide
  contents := by decide
  counts := by decide
  tuples := by
    intro manifest member spec found entry inside
    rcases List.mem_cons.mp member with rfl | member
    · cases found
      rw [List.mem_singleton.mp inside]
      rfl
    · obtain rfl := List.mem_singleton.mp member
      cases found
      rw [List.mem_singleton.mp inside]
      rfl

/-- What is fixed for the scan. -/
def deletedContext : ScanContext LongValue where
  config := deletedScan.config
  schema := deletedScan.schema
  includePartitionValues := true
  hasPositionDeletes := false
  columns := ⟨[dataFilePathColumn, manifestFilePathColumn], none, none, none⟩
  changeSequences := none
  scanProjection := [1, 2]
  outputs := [(.column 0, dataFilePathColumn), (.column 1, manifestFilePathColumn)]

/-- The entries of the scan. -/
def scannedEntry (manifestPath : String) (sequenceNumber : Int) (dataFile : DataFile LongValue) :
    ContentFile LongValue where
  manifestPath
  entry := {
    formatVersion := .v2
    status := .added
    snapshotId := some 1
    sequenceNumber := some sequenceNumber
    dataFile }

/-- A file of the scan under the path of a manifest. -/
def pathFile (entry : ContentFile LongValue) (manifestPath : String) :
    PartitionedFile LongValue :=
  ⟨entry, [.utf8 entry.entry.dataFile.filePath, .utf8 manifestPath]⟩

/-- The data file of the scan. -/
def dataEntry : ContentFile LongValue := scannedEntry "data" 1 (longFile "file" 1)

/-- The equality delete of the scan. -/
def deleteEntry : ContentFile LongValue :=
  scannedEntry "deletes" 2 { longFile "delete" 1 with
    content := .equalityDeletes, equalityIds := some [1] }

/-- The scan when the delete has been pruned. -/
theorem plans_attributed_pruned :
    deletedScan.plans (fun value => .ok (.other value)) id [dataEntry] =
      .ok (deletedContext, [.source [pathFile dataEntry "data"] [1, 2]]) ∧
    ∀ stored, ∀ plan ∈ [ScanPlan.source [pathFile dataEntry "data"] [1, 2]], ∀ origin row,
      plan.Outputs (deletedScan.config.fileColumns deletedScan.schema) stored origin row →
        deletedScan.RowAttributed (plan.columns deletedContext) origin row := by
  have run : deletedScan.plans (fun value => .ok (.other value)) id [dataEntry] =
      .ok (deletedContext, [.source [pathFile dataEntry "data"] [1, 2]]) := rfl
  refine ⟨run, (TracedScan.plans_attributed_iff deletedScan (fun _ => .refl _)
    (List.take_sublist 1 deletedScan.entries) run).mpr ?_⟩
  intro file member _
  obtain rfl := List.mem_singleton.mp member
  constructor
  · intro cell named
    cases named
  · intro cell named
    cases named
  · intro _
    refine ⟨⟨_, List.mem_cons_self, rfl, _, List.mem_cons_self, by decide, rfl, rfl⟩, ?_⟩
    rintro delete among ⟨later, -⟩
    rw [List.mem_singleton.mp among] at later
    exact absurd later (Int.lt_irrefl _)

/-- The row of the data file is attributed to the manifest of the delete. -/
theorem plans_not_attributed : ∃ plan,
    deletedScan.plans (fun value => .ok (.other value)) id [dataEntry, deleteEntry] =
      .ok (deletedContext, [plan]) ∧
    ∃ stored row,
      plan.Outputs (deletedScan.config.fileColumns deletedScan.schema) stored dataEntry row ∧
        ¬ deletedScan.RowAttributed (plan.columns deletedContext) dataEntry row := by
  refine ⟨.projection deletedContext.outputs (.equalityAnti (pathFile deleteEntry "deletes")
    [("n", 2)] (.source [pathFile dataEntry "deletes"] [1, 2, 0])), rfl, firstRows,
    [.utf8 "file", .utf8 "deletes"], ?_, ?_⟩
  · refine ⟨[.utf8 "file", .utf8 "deletes", .null], ⟨⟨_, List.mem_cons_self, rfl, 0, fun _ => .null,
      rfl, rfl⟩, ?_⟩, rfl⟩
    rintro ⟨key, absent, -⟩
    cases absent
  · rintro ⟨-, attributed⟩
    obtain ⟨path, isPath, manifest, member, samePath, entry, inside, -, content, -⟩ :=
      attributed (.utf8 "deletes") (by decide)
    obtain rfl := ScalarValue.utf8.inj isPath
    rcases List.mem_cons.mp member with rfl | member
    · exact absurd samePath (by decide)
    · obtain rfl := List.mem_singleton.mp member
      rw [List.mem_singleton.mp inside] at content
      cases content

end IcebergRust

import IcebergRust.Lib.Fallible
import IcebergRust.Lib.Grouping
import IcebergRust.Spec.LongValue
import Mathlib.Data.List.Sort

/-!
# Groups of data files and their delete files

`group_content_files` of `datafusion_iceberg/src/table/mod.rs`: the data files of a scan by
partition, and for each group the delete files that apply to it.

* `groupContentFiles` follows the order of the source: orphaned delete groups are dropped, groups
  are merged where only global deletes are left, and these are then copied to every group.
* `ContentGroups.Collects` is what the first loop leaves, `groupContentFiles_spec` what becomes of
  it.
* `groupContentFiles_scope` is the statement about scopes; a single group takes any number of
  global deletes (`groupContentFiles_one_group`).
-/

namespace IcebergRust

open Fallible Grouping

/-- `DataFusionError`. -/
inductive DataFusionError where
  | execution (what : String)
  | notImplemented (what : String)
  | plan (what : String)
  /-- No field of the name in an arrow schema. -/
  | fieldNotFound (name : String)
  | external (error : Error)
deriving DecidableEq, Repr

/-- The columns of a tuple by name, which is what `PartialEq` and `Hash` of `Struct` look at. -/
def Struct.columns {V : Type} (tuple : Struct V) : List (String × Option V) :=
  ((tuple.fields.map (·.1)).dedup.insertionSort (· ≤ ·)).filterMap fun name =>
    (tuple.get name).map fun value => (name, value)

/-- `PartitionKey`: a spec id and a tuple. -/
abbrev PartitionKey (V : Type) := Int × List (String × Option V)

/-- A file of a scan: the path of its manifest and its entry there. -/
structure ContentFile (V : Type) where
  manifestPath : String
  entry : ManifestEntry V
deriving DecidableEq

/-- `PartitionDeleteFileIndex`. -/
structure PartitionDeleteFileIndex (V : Type) where
  equalityDeletes : List (ContentFile V)
  positionDeletes : List (ContentFile V)

/-- `PartitionDeleteFileIndex::default`. -/
def PartitionDeleteFileIndex.empty {V : Type} : PartitionDeleteFileIndex V := ⟨[], []⟩

/-- `scan_manifest_status`. -/
def scanManifestStatus (status : Status) (content : Content) (scanChangedDataFiles : Bool) : Bool :=
  if scanChangedDataFiles then content = .data && (status = .added || status = .deleted)
  else status ≠ .deleted

/-- `scan_manifest_entry`. -/
def scanManifestEntry {V : Type} (entry : ManifestEntry V) (scanChangedDataFiles : Bool) : Bool :=
  scanManifestStatus entry.status entry.dataFile.content scanChangedDataFiles

/-- Where a file belongs: the data or the deletes of a partition, or the deletes of every one. -/
inductive FileScope (V : Type) where
  | data (key : PartitionKey V)
  | globalEquality
  | equality (key : PartitionKey V)
  | position (key : PartitionKey V)
deriving DecidableEq

variable {V : Type}

/-- The body of the first loop up to its `match`: equality deletes of a spec without fields are
global. -/
def scopeOf (specIds : HashMap String Int) (specs : HashMap Int PartitionSpec)
    (file : ContentFile V) : Except DataFusionError (FileScope V) :=
  match specIds.lookup file.manifestPath with
  | none => .error (.execution ("Missing partition spec for manifest " ++ file.manifestPath))
  | some specId =>
    match specs.lookup specId with
    | none => .error (.execution ("Unknown partition spec " ++ toString specId))
    | some spec =>
      let partition := (specId, file.entry.dataFile.partition.columns)
      match file.entry.dataFile.content with
      | .data => .ok (.data partition)
      | .equalityDeletes =>
        if spec.fields.isEmpty then .ok .globalEquality else .ok (.equality partition)
      | .positionDeletes => .ok (.position partition)

variable [DecidableEq V]

/-- The state of the first loop. -/
structure ContentGroups (V : Type) where
  data : HashMap (PartitionKey V) (List (ContentFile V))
  deletes : HashMap (PartitionKey V) (PartitionDeleteFileIndex V)
  globalEqualityDeletes : List (ContentFile V)

/-- The deletes under a key: `entry(key).or_default()`. -/
def deletesAt (deletes : HashMap (PartitionKey V) (PartitionDeleteFileIndex V))
    (key : PartitionKey V) : PartitionDeleteFileIndex V :=
  (deletes.lookup key).getD .empty

/-- One file of the first loop. -/
def groupStep (specIds : HashMap String Int) (specs : HashMap Int PartitionSpec)
    (scanChangedDataFiles : Bool) (groups : ContentGroups V) (file : ContentFile V) :
    Except DataFusionError (ContentGroups V) :=
  if ¬ scanManifestEntry file.entry scanChangedDataFiles then .ok groups
  else do
    match ← scopeOf specIds specs file with
    | .data key => .ok { groups with data := push groups.data key file }
    | .globalEquality =>
      .ok { groups with globalEqualityDeletes := groups.globalEqualityDeletes ++ [file] }
    | .equality key =>
      let index := deletesAt groups.deletes key
      let extended := { index with equalityDeletes := index.equalityDeletes ++ [file] }
      .ok { groups with deletes := groups.deletes.insert key extended }
    | .position key =>
      let index := deletesAt groups.deletes key
      let extended := { index with positionDeletes := index.positionDeletes ++ [file] }
      .ok { groups with deletes := groups.deletes.insert key extended }

/-- `MAX_GLOBAL_DELETE_APPLICATIONS`. -/
def maxGlobalDeleteApplications : Nat := 1024

/-- `MAX_GLOBAL_DELETE_SCAN_GROUPS`. -/
def maxGlobalDeleteScanGroups : Nat := 32

/-- The number of groups that are left by merging. -/
def groupCount (groups deletes : Nat) : Nat :=
  min (min groups maxGlobalDeleteScanGroups) (max (maxGlobalDeleteApplications / deletes) 1)

/-- The data groups, merged where there are only global deletes.  `shuffle` is the order in which
`drain` yields them. -/
def mergedGroups
    (shuffle : List (PartitionKey V × List (ContentFile V)) →
      List (PartitionKey V × List (ContentFile V)))
    (data : HashMap (PartitionKey V) (List (ContentFile V)))
    (deletes : HashMap (PartitionKey V) (PartitionDeleteFileIndex V))
    (globalEqualityDeletes : List (ContentFile V)) :
    HashMap (PartitionKey V) (List (ContentFile V)) :=
  if globalEqualityDeletes ≠ [] ∧ deletes.entries = [] ∧ 1 < data.entries.length then
    HashMap.fromIter (deal (groupCount data.entries.length globalEqualityDeletes.length)
      (shuffle data.iter))
  else data

/-- `HashMap::retain` by the key. -/
def HashMap.retain {κ β : Type} [DecidableEq κ] (map : HashMap κ β) (keep : κ → Bool) :
    HashMap κ β :=
  HashMap.fromIter (map.iter.filterMap fun entry =>
    (if keep entry.1 then some entry.2 else none).map fun value => (entry.1, value))

/-- The delete groups that have data. -/
def ContentGroups.localDeletes (groups : ContentGroups V) :
    HashMap (PartitionKey V) (PartitionDeleteFileIndex V) :=
  groups.deletes.retain fun key => (groups.data.lookup key).isSome

/-- The global deletes are copied to every group. -/
def copyGlobal (globalEqualityDeletes : List (ContentFile V))
    (deletes : HashMap (PartitionKey V) (PartitionDeleteFileIndex V)) (key : PartitionKey V) :
    HashMap (PartitionKey V) (PartitionDeleteFileIndex V) :=
  let index := deletesAt deletes key
  deletes.insert key { index with
    equalityDeletes := index.equalityDeletes ++ globalEqualityDeletes }

/-- `group_content_files`. -/
def groupContentFiles
    (shuffle : List (PartitionKey V × List (ContentFile V)) →
      List (PartitionKey V × List (ContentFile V)))
    (files : List (ContentFile V)) (specIds : HashMap String Int)
    (specs : HashMap Int PartitionSpec) (scanChangedDataFiles : Bool) :
    Except DataFusionError (HashMap (PartitionKey V) (List (ContentFile V)) ×
      HashMap (PartitionKey V) (PartitionDeleteFileIndex V)) := do
  let groups ← files.foldlM (groupStep specIds specs scanChangedDataFiles) ⟨∅, ∅, []⟩
  let deletes := groups.localDeletes
  let data := mergedGroups shuffle groups.data deletes groups.globalEqualityDeletes
  if 1 < data.entries.length ∧ maxGlobalDeleteApplications <
      groups.globalEqualityDeletes.length * data.entries.length then
    .error (.notImplemented ("More than " ++ toString maxGlobalDeleteApplications ++
      " global equality-delete applications in one scan"))
  else if groups.globalEqualityDeletes ≠ [] then
    .ok (data, (data.iter.map (·.1)).foldl (copyGlobal groups.globalEqualityDeletes) deletes)
  else .ok (data, deletes)

/-! ### Maps -/

namespace HashMap

variable {κ β : Type} [DecidableEq κ]

theorem lookup_retain (map : HashMap κ β) (keep : κ → Bool) (key : κ) :
    (map.retain keep).lookup key = if keep key then map.lookup key else none := by
  have changed := lookup_fromIter_filterMap map
    (fun key value => if keep key then some value else none) key
  refine changed.trans ?_
  cases keep key <;> cases map.lookup key <;> rfl

/-- Entries of distinct keys are all in the map of them. -/
theorem iter_fromIter {pairs : List (κ × β)} (distinct : (pairs.map (·.1)).Nodup) :
    (fromIter pairs).iter.Perm pairs := by
  induction pairs using List.reverseRecOn with
  | nil => exact .nil
  | append_singleton pairs pair ih =>
    rw [List.map_append, List.nodup_append] at distinct
    obtain ⟨before, -, fresh⟩ := distinct
    have grown : fromIter (pairs ++ [pair]) = (fromIter pairs).insert pair.1 pair.2 := by
      rw [fromIter, List.foldl_append]
      rfl
    have absent : pair.1 ∉ fromIter pairs := by
      intro present
      obtain ⟨value, found⟩ := Option.isSome_iff_exists.mp (AList.lookup_isSome.mpr present)
      have member := (ih before).mem_iff.mp (mem_iter_iff.mpr found)
      exact fresh _ (List.mem_map_of_mem member) _ List.mem_cons_self rfl
    rw [grown, iter, AList.entries_insert_of_notMem absent, List.map_cons]
    refine List.Perm.trans (.cons _ (ih before)) ?_
    exact List.perm_append_singleton _ _ |>.symm

end HashMap

/-! ### The first loop -/

/-- Where a scanned file belongs. -/
def scopeIn (specIds : HashMap String Int) (specs : HashMap Int PartitionSpec)
    (scanChangedDataFiles : Bool) (file : ContentFile V) : Option (FileScope V) :=
  if scanManifestEntry file.entry scanChangedDataFiles then (scopeOf specIds specs file).toOption
  else none

/-- A data file of some partition. -/
def FileScope.isData : FileScope V → Bool
  | .data _ => true
  | _ => false

/-- The files of a scope, in order. -/
def ofScope (scope : ContentFile V → Option (FileScope V)) (files : List (ContentFile V))
    (own : FileScope V) : List (ContentFile V) :=
  files.filter fun file => scope file = some own

variable {scope : ContentFile V → Option (FileScope V)}

variable {file : ContentFile V}

theorem mem_ofScope {files : List (ContentFile V)} {own : FileScope V} :
    file ∈ ofScope scope files own ↔ file ∈ files ∧ scope file = some own := by
  rw [ofScope, List.mem_filter, decide_eq_true_eq]

theorem ofScope_append_self (done : List (ContentFile V)) {own : FileScope V}
    (belongs : scope file = some own) :
    ofScope scope (done ++ [file]) own = ofScope scope done own ++ [file] := by
  rw [ofScope, List.filter_append, List.filter_singleton, belongs, decide_eq_true rfl, ofScope]
  rfl

theorem ofScope_append_ne (done : List (ContentFile V)) {own : FileScope V}
    (differs : scope file ≠ some own) :
    ofScope scope (done ++ [file]) own = ofScope scope done own := by
  rw [ofScope, List.filter_append, List.filter_cons_of_neg (by simpa using differs),
    List.filter_nil, List.append_nil, ofScope]

/-- What the first loop has collected. -/
structure ContentGroups.Collects (scope : ContentFile V → Option (FileScope V))
    (done : List (ContentFile V)) (groups : ContentGroups V) : Prop where
  data : ∀ key, under groups.data key = ofScope scope done (.data key)
  keys : ∀ key ∈ groups.data, ∃ file ∈ done, scope file = some (.data key)
  contents : (contents (HashMap.iter groups.data)).Perm
    (done.filter fun file => (scope file).any FileScope.isData)
  equality : ∀ key,
    (deletesAt groups.deletes key).equalityDeletes = ofScope scope done (.equality key)
  position : ∀ key,
    (deletesAt groups.deletes key).positionDeletes = ofScope scope done (.position key)
  global : groups.globalEqualityDeletes = ofScope scope done .globalEquality

theorem deletesAt_insert (deletes : HashMap (PartitionKey V) (PartitionDeleteFileIndex V))
    (key other : PartitionKey V) (index : PartitionDeleteFileIndex V) :
    deletesAt (deletes.insert key index) other =
      if other = key then index else deletesAt deletes other := by
  unfold deletesAt
  by_cases here : other = key
  · rw [if_pos here, here, AList.lookup_insert, Option.getD_some]
  · rw [if_neg here, AList.lookup_insert_ne here]

section Collect

variable {specIds : HashMap String Int} {specs : HashMap Int PartitionSpec}
  {scanChangedDataFiles : Bool}

variable {file : ContentFile V}

/-- A file is passed over, or goes where its scope says. -/
theorem groupStep_cases {before after : ContentGroups V}
    (run : groupStep specIds specs scanChangedDataFiles before file = .ok after) :
    (scopeIn specIds specs scanChangedDataFiles file = none ∧ after = before) ∨
      ∃ own, scopeIn specIds specs scanChangedDataFiles file = some own ∧ (match own with
        | .data key => { before with data := push before.data key file }
        | .globalEquality =>
          { before with globalEqualityDeletes := before.globalEqualityDeletes ++ [file] }
        | .equality key =>
          let index := deletesAt before.deletes key
          let extended := { index with equalityDeletes := index.equalityDeletes ++ [file] }
          { before with deletes := before.deletes.insert key extended }
        | .position key =>
          let index := deletesAt before.deletes key
          let extended := { index with positionDeletes := index.positionDeletes ++ [file] }
          { before with deletes := before.deletes.insert key extended }) = after := by
  unfold groupStep at run
  split at run
  · rename_i skipped
    cases run
    exact .inl ⟨if_neg skipped, rfl⟩
  · rename_i scanned
    obtain ⟨own, found, run⟩ := bind_eq_ok.mp run
    have scope : scopeIn specIds specs scanChangedDataFiles file = some own := by
      rw [scopeIn, if_pos (not_not.mp scanned), found]
      rfl
    refine .inr ⟨own, scope, ?_⟩
    cases own <;>
    · cases run
      rfl

/-- Nothing is collected of a file that is passed over. -/
theorem ContentGroups.Collects.skip {scope : ContentFile V → Option (FileScope V)}
    {done : List (ContentFile V)} {groups : ContentGroups V} (collects : groups.Collects scope done)
    (skipped : scope file = none) :
    groups.Collects scope (done ++ [file]) where
  data key := by rw [collects.data, ofScope_append_ne _ (by rw [skipped]; nofun)]
  keys key member := by
    obtain ⟨earlier, within, belongs⟩ := collects.keys key member
    exact ⟨earlier, List.mem_append_left _ within, belongs⟩
  contents := by
    rw [List.filter_append, List.filter_singleton, skipped]
    simpa using collects.contents
  equality key := by rw [collects.equality, ofScope_append_ne _ (by rw [skipped]; nofun)]
  position key := by rw [collects.position, ofScope_append_ne _ (by rw [skipped]; nofun)]
  global := by rw [collects.global, ofScope_append_ne _ (by rw [skipped]; nofun)]

/-- One file of the first loop. -/
theorem groupStep_collects {done : List (ContentFile V)} {before after : ContentGroups V}
    (collects : before.Collects (scopeIn specIds specs scanChangedDataFiles) done)
    (run : groupStep specIds specs scanChangedDataFiles before file = .ok after) :
    after.Collects (scopeIn specIds specs scanChangedDataFiles) (done ++ [file]) := by
  rcases groupStep_cases run with ⟨skipped, rfl⟩ | ⟨own, belongs, rfl⟩
  · exact collects.skip skipped
  · have others : ∀ key ∈ before.data, ∃ other ∈ done ++ [file],
        scopeIn specIds specs scanChangedDataFiles other = some (.data key) := by
      intro key member
      obtain ⟨earlier, within, scope⟩ := collects.keys key member
      exact ⟨earlier, List.mem_append_left _ within, scope⟩
    have keeps : ∀ other, other ≠ own → ∀ files,
        files = ofScope (scopeIn specIds specs scanChangedDataFiles) done other →
        files = ofScope (scopeIn specIds specs scanChangedDataFiles) (done ++ [file]) other := by
      intro other differ files same
      rw [same, ofScope_append_ne]
      exact fun equal => differ (Option.some_inj.mp (equal.symm.trans belongs))
    cases own with
    | data own =>
      constructor
      · intro key
        by_cases here : key = own
        · subst here
          rw [under_push_self, collects.data, ofScope_append_self done belongs]
        · rw [under_push_ne _ here]
          exact keeps (.data key) (fun same => here (FileScope.data.inj same)) _ (collects.data key)
      · intro key member
        rcases mem_push.mp member with rfl | earlier
        · exact ⟨file, List.mem_append_right _ List.mem_cons_self, belongs⟩
        · exact others key earlier
      · rw [List.filter_append, List.filter_singleton, belongs]
        exact (contents_push before.data own file).trans (collects.contents.append_right _)
      · exact fun key => keeps (.equality key) nofun _ (collects.equality key)
      · exact fun key => keeps (.position key) nofun _ (collects.position key)
      · exact keeps .globalEquality nofun _ collects.global
    | globalEquality =>
      constructor
      · exact fun key => keeps (.data key) nofun _ (collects.data key)
      · exact others
      · rw [List.filter_append, List.filter_singleton, belongs]
        simpa [FileScope.isData] using collects.contents
      · exact fun key => keeps (.equality key) nofun _ (collects.equality key)
      · exact fun key => keeps (.position key) nofun _ (collects.position key)
      · rw [ofScope_append_self done belongs, ← collects.global]
    | equality own =>
      constructor
      · exact fun key => keeps (.data key) nofun _ (collects.data key)
      · exact others
      · rw [List.filter_append, List.filter_singleton, belongs]
        simpa [FileScope.isData] using collects.contents
      · intro key
        rw [deletesAt_insert]
        by_cases here : key = own
        · subst here
          rw [if_pos rfl, ofScope_append_self done belongs, ← collects.equality]
        · rw [if_neg here]
          exact keeps (.equality key) (fun same => here (FileScope.equality.inj same)) _
            (collects.equality key)
      · intro key
        refine keeps (.position key) nofun _ ?_
        rw [deletesAt_insert, ← collects.position]
        by_cases here : key = own
        · rw [if_pos here, here]
        · rw [if_neg here]
      · exact keeps .globalEquality nofun _ collects.global
    | position own =>
      constructor
      · exact fun key => keeps (.data key) nofun _ (collects.data key)
      · exact others
      · rw [List.filter_append, List.filter_singleton, belongs]
        simpa [FileScope.isData] using collects.contents
      · intro key
        refine keeps (.equality key) nofun _ ?_
        rw [deletesAt_insert, ← collects.equality]
        by_cases here : key = own
        · rw [if_pos here, here]
        · rw [if_neg here]
      · intro key
        rw [deletesAt_insert]
        by_cases here : key = own
        · subst here
          rw [if_pos rfl, ofScope_append_self done belongs, ← collects.position]
        · rw [if_neg here]
          exact keeps (.position key) (fun same => here (FileScope.position.inj same)) _
            (collects.position key)
      · exact keeps .globalEquality nofun _ collects.global

end Collect

/-! ### Merging and copying -/

open HashMap

theorem deletesAt_retain (deletes : HashMap (PartitionKey V) (PartitionDeleteFileIndex V))
    (keep : PartitionKey V → Bool) (key : PartitionKey V) :
    deletesAt (deletes.retain keep) key = if keep key then deletesAt deletes key else .empty := by
  unfold deletesAt
  rw [lookup_retain]
  cases keep key <;> rfl

theorem deletesAt_copyGlobal (globals : List (ContentFile V)) {keys : List (PartitionKey V)}
    (distinct : keys.Nodup) (deletes : HashMap (PartitionKey V) (PartitionDeleteFileIndex V))
    {key : PartitionKey V} (member : key ∈ keys) :
    deletesAt (keys.foldl (copyGlobal globals) deletes) key =
      { deletesAt deletes key with
        equalityDeletes := (deletesAt deletes key).equalityDeletes ++ globals } := by
  have absent : ∀ (keys : List (PartitionKey V))
      (deletes : HashMap (PartitionKey V) (PartitionDeleteFileIndex V)), key ∉ keys →
      deletesAt (keys.foldl (copyGlobal globals) deletes) key = deletesAt deletes key := by
    intro keys
    induction keys with
    | nil => exact fun _ _ => rfl
    | cons other keys ih =>
      intro deletes outside
      obtain ⟨differs, outside⟩ := not_or.mp fun within => outside (List.mem_cons.mpr within)
      rw [List.foldl_cons, ih _ outside, copyGlobal, deletesAt_insert, if_neg differs]
  induction keys generalizing deletes with
  | nil => cases member
  | cons other keys ih =>
    obtain ⟨fresh, distinct⟩ := List.nodup_cons.mp distinct
    rw [List.foldl_cons]
    rcases List.mem_cons.mp member with rfl | later
    · rw [absent keys _ fresh, copyGlobal, deletesAt_insert, if_pos rfl]
    · have differs : key ≠ other := fun same => fresh (same ▸ later)
      rw [ih distinct _ later, copyGlobal, deletesAt_insert, if_neg differs]

omit [DecidableEq V] in
theorem keys_iter_nodup {β : Type} (map : HashMap (PartitionKey V) β) :
    (map.iter.map (·.1)).Nodup := by
  rw [iter, List.map_map]
  exact map.keys_nodup

omit [DecidableEq V] in
/-- There is at least one group to deal to. -/
theorem groupCount_pos {groups deletes : Nat} (positive : 0 < groups) :
    0 < groupCount groups deletes := by
  unfold groupCount maxGlobalDeleteScanGroups
  omega

section Merge

variable {shuffle : List (PartitionKey V × List (ContentFile V)) →
    List (PartitionKey V × List (ContentFile V))} (shuffles : ∀ groups, (shuffle groups).Perm groups)
  {data : HashMap (PartitionKey V) (List (ContentFile V))}
  {deletes : HashMap (PartitionKey V) (PartitionDeleteFileIndex V)} {globals : List (ContentFile V)}

include shuffles

/-- Merging keeps every data file. -/
theorem contents_mergedGroups :
    (contents (iter (mergedGroups shuffle data deletes globals))).Perm
      (contents data.iter) := by
  unfold mergedGroups
  split
  · rename_i merges
    have positive : 0 < groupCount data.entries.length globals.length :=
      groupCount_pos (Nat.lt_of_succ_lt merges.2.2)
    have order := shuffles data.iter
    have distinct : ((deal (groupCount data.entries.length globals.length)
        (shuffle data.iter)).map (·.1)).Nodup := by
      rw [keys_deal]
      exact ((order.map _).nodup_iff.mpr (keys_iter_nodup data)).sublist (List.take_sublist _ _)
    exact ((iter_fromIter distinct).flatMap_right _).trans
      ((contents_deal positive _).trans (order.flatMap_right _))
  · exact .refl _

end Merge

/-! ### Scopes -/

/-- The global deletes that are applied to a group. -/
def globalApplications (scope : ContentFile V → Option (FileScope V))
    (deletes : HashMap (PartitionKey V) (PartitionDeleteFileIndex V)) (key : PartitionKey V) : Nat :=
  (ofScope scope (deletesAt deletes key).equalityDeletes .globalEquality).length

section Scopes

variable {shuffle : List (PartitionKey V × List (ContentFile V)) →
    List (PartitionKey V × List (ContentFile V))} {files : List (ContentFile V)}
  {specIds : HashMap String Int} {specs : HashMap Int PartitionSpec} {scanChangedDataFiles : Bool}
  {data : HashMap (PartitionKey V) (List (ContentFile V))}
  {deletes : HashMap (PartitionKey V) (PartitionDeleteFileIndex V)}

/-- What the first loop has collected, and what becomes of it. -/
theorem groupContentFiles_spec
    (run : groupContentFiles shuffle files specIds specs scanChangedDataFiles =
      .ok (data, deletes)) :
    ∃ groups : ContentGroups V,
      groups.Collects (scopeIn specIds specs scanChangedDataFiles) files ∧
      data = mergedGroups shuffle groups.data groups.localDeletes groups.globalEqualityDeletes ∧
      (data.entries.length ≤ 1 ∨ groups.globalEqualityDeletes.length * data.entries.length ≤
        maxGlobalDeleteApplications) ∧
      ∀ key ∈ data, deletesAt deletes key = { deletesAt groups.localDeletes key with
        equalityDeletes := (deletesAt groups.localDeletes key).equalityDeletes ++
          groups.globalEqualityDeletes } := by
  obtain ⟨groups, folded, run⟩ := bind_eq_ok.mp run
  have collects : groups.Collects (scopeIn specIds specs scanChangedDataFiles) files := by
    refine foldlM_prefix_invariant
      (ContentGroups.Collects (scopeIn specIds specs scanChangedDataFiles)) ?_ folded ?_
    · exact fun _ _ _ _ _ before step => groupStep_collects before step
    · exact ⟨fun _ => rfl, (fun _ absent => nomatch absent), .nil, fun _ => rfl, fun _ => rfl, rfl⟩
  obtain ⟨within, run⟩ := guard_eq_ok.mp run
  have bounded := (not_and_or.mp within).imp Nat.le_of_not_lt Nat.le_of_not_lt
  split at run
  · cases run
    refine ⟨groups, collects, rfl, bounded, ?_⟩
    intro key member
    refine deletesAt_copyGlobal _ (keys_iter_nodup _) _ ?_
    obtain ⟨group, found⟩ := Option.isSome_iff_exists.mp (AList.lookup_isSome.mpr member)
    exact List.mem_map_of_mem (mem_iter_iff.mpr found)
  · rename_i without
    cases run
    refine ⟨groups, collects, rfl, bounded, ?_⟩
    intro key _
    rw [not_not.mp without, List.append_nil]

/-- The deletes of a partition with data are kept. -/
theorem ContentGroups.deletesAt_local (groups : ContentGroups V) {key : PartitionKey V}
    (present : (groups.data.lookup key).isSome = true) :
    deletesAt groups.localDeletes key = deletesAt groups.deletes key := by
  rw [localDeletes, deletesAt_retain, if_pos present]

/-- The local deletes in the group of a file are those of its partition.  Where groups are merged
there are none, and no partition with data has any. -/
theorem ContentGroups.Collects.local_iff {scope : ContentFile V → Option (FileScope V)}
    {groups : ContentGroups V} (collects : groups.Collects scope files)
    (shuffles : ∀ groups, (shuffle groups).Perm groups) {key own other : PartitionKey V}
    {group : List (ContentFile V)}
    (found : (mergedGroups shuffle groups.data groups.localDeletes
      groups.globalEqualityDeletes).lookup key = some group)
    {file delete : ContentFile V} (member : file ∈ group) (belongs : scope file = some (.data own))
    (within : delete ∈ files) :
    (scope delete = some (.equality other) →
      (delete ∈ (deletesAt groups.localDeletes key).equalityDeletes ↔ other = own)) ∧
    (scope delete = some (.position other) →
      (delete ∈ (deletesAt groups.localDeletes key).positionDeletes ↔ other = own)) := by
  -- The file was collected under its own key, which therefore has data.
  have collected : ∀ first group, groups.data.lookup first = some group → file ∈ group →
      first = own := by
    intro first group bound here
    have inScope : file ∈ ofScope scope files (.data first) := by
      rw [← collects.data, under, bound]
      exact here
    exact FileScope.data.inj (Option.some_inj.mp ((mem_ofScope.mp inScope).2.symm.trans belongs))
  have present : (groups.data.lookup own).isSome = true := by
    have listed : file ∈ Grouping.contents (iter groups.data) := by
      apply (contents_mergedGroups shuffles).mem_iff.mp
      exact mem_contents.mpr ⟨(key, group), mem_iter_iff.mpr found, member⟩
    obtain ⟨⟨first, others⟩, there, here⟩ := mem_contents.mp listed
    have bound := mem_iter_iff.mp there
    rw [← collected first others bound here, bound]
    rfl
  have atOwn := groups.deletesAt_local present
  -- What the group of the file's own partition holds.
  have equality : delete ∈ (deletesAt groups.localDeletes own).equalityDeletes ↔
      scope delete = some (.equality own) := by
    rw [atOwn, collects.equality, mem_ofScope, and_iff_right within]
  have position : delete ∈ (deletesAt groups.localDeletes own).positionDeletes ↔
      scope delete = some (.position own) := by
    rw [atOwn, collects.position, mem_ofScope, and_iff_right within]
  unfold mergedGroups at found
  split at found
  · rename_i merges
    have nothing : ∀ key, deletesAt groups.localDeletes key = .empty := by
      intro key
      have unbound : groups.localDeletes.lookup key = none := by
        apply AList.lookup_eq_none.mpr
        intro present
        have listed := AList.mem_keys.mp present
        rw [AList.keys, merges.2.1] at listed
        cases listed
      rw [deletesAt, unbound]
      rfl
    rw [nothing] at equality position
    rw [nothing]
    constructor
    · intro belongsTo
      refine iff_of_false List.not_mem_nil ?_
      rintro rfl
      exact List.not_mem_nil (equality.mpr belongsTo)
    · intro belongsTo
      refine iff_of_false List.not_mem_nil ?_
      rintro rfl
      exact List.not_mem_nil (position.mpr belongsTo)
  · obtain rfl := collected key group found member
    rw [equality, position]
    constructor
    · intro own
      rw [own, Option.some_inj, FileScope.equality.injEq]
    · intro own
      rw [own, Option.some_inj, FileScope.position.injEq]

/-- A group has all global deletes, beside its own. -/
theorem ContentGroups.Collects.length_global {scope : ContentFile V → Option (FileScope V)}
    {groups : ContentGroups V} (collects : groups.Collects scope files) (key : PartitionKey V) :
    (ofScope scope ((deletesAt groups.localDeletes key).equalityDeletes ++
      groups.globalEqualityDeletes) .globalEquality).length =
        groups.globalEqualityDeletes.length := by
  have own : ofScope scope (deletesAt groups.localDeletes key).equalityDeletes
      .globalEquality = [] := by
    apply List.filter_eq_nil_iff.mpr
    intro file member global
    rw [localDeletes, deletesAt_retain] at member
    split at member
    · rw [collects.equality] at member
      cases (of_decide_eq_true global).symm.trans (mem_ofScope.mp member).2
    · cases member
  have all : ofScope scope groups.globalEqualityDeletes .globalEquality =
      groups.globalEqualityDeletes := by
    apply List.filter_eq_self.mpr
    intro file member
    rw [collects.global] at member
    exact decide_eq_true (mem_ofScope.mp member).2
  rw [ofScope, List.filter_append, ← ofScope, ← ofScope, own, all, List.nil_append]

/-- **Deletes are grouped by scope.**  Every scanned data file is in one group; the deletes of a
partition are in the group of a data file exactly if it is of that partition, and the global ones
in every group; and the global ones are applied a bounded number of times, or to a single group. -/
theorem groupContentFiles_scope (shuffles : ∀ groups, (shuffle groups).Perm groups)
    (run : groupContentFiles shuffle files specIds specs scanChangedDataFiles =
      .ok (data, deletes)) :
    let scope := scopeIn specIds specs scanChangedDataFiles
    ((data.iter.flatMap (·.2)).Perm
      (files.filter fun file => (scope file).any FileScope.isData)) ∧
    (∀ key group, data.lookup key = some group → ∀ file ∈ group, ∀ own,
      scope file = some (.data own) → ∀ delete ∈ files, ∀ other,
        (scope delete = some (.equality other) →
          (delete ∈ (deletesAt deletes key).equalityDeletes ↔ other = own)) ∧
        (scope delete = some (.position other) →
          (delete ∈ (deletesAt deletes key).positionDeletes ↔ other = own))) ∧
    (∀ key ∈ data, ∀ delete ∈ files, scope delete = some .globalEquality →
      delete ∈ (deletesAt deletes key).equalityDeletes) ∧
    (data.entries.length ≤ 1 ∨
      (data.iter.map fun group => globalApplications scope deletes group.1).sum ≤
        maxGlobalDeleteApplications) := by
  intro scope
  obtain ⟨groups, collects, rfl, bounded, copied⟩ := groupContentFiles_spec run
  refine ⟨(contents_mergedGroups shuffles).trans collects.contents, ?_, ?_, bounded.imp_right ?_⟩
  · intro key group found file member own belongs delete within other
    have here := copied key (AList.lookup_isSome.mp (by rw [found]; rfl))
    obtain ⟨equality, position⟩ :
        (scope delete = some (.equality other) → _) ∧ (scope delete = some (.position other) → _) :=
      collects.local_iff shuffles found member belongs within
    rw [here]
    refine ⟨?_, position⟩
    intro belongsTo
    rw [List.mem_append, equality belongsTo, collects.global, mem_ofScope]
    refine or_iff_left ?_
    rintro ⟨-, global⟩
    cases belongsTo.symm.trans global
  · intro key member delete within global
    rw [copied key member]
    apply List.mem_append_right
    rw [collects.global]
    exact mem_ofScope.mpr ⟨within, global⟩
  · intro few
    have each : ∀ group ∈ HashMap.iter (mergedGroups shuffle groups.data groups.localDeletes
        groups.globalEqualityDeletes), globalApplications scope deletes group.1 =
          groups.globalEqualityDeletes.length := by
      intro group member
      have bound := HashMap.mem_iter_iff.mp member
      have here := copied group.1 (AList.lookup_isSome.mp (by rw [bound]; rfl))
      rw [globalApplications, here]
      exact collects.length_global group.1
    rw [List.map_congr_left each, List.map_const', List.sum_replicate_nat, HashMap.iter,
      List.length_map, Nat.mul_comm]
    exact few

end Scopes

/-! ### A single group -/

/-- An added file of an unpartitioned table. -/
def unpartitionedFile (content : Content) : ContentFile LongValue where
  manifestPath := "m"
  entry := {
    formatVersion := .v2
    status := .added
    snapshotId := none
    sequenceNumber := none
    dataFile := { longFile "file" 1 with content } }

/-- A data file, and global deletes. -/
def oneGroup (deletes : Nat) : List (ContentFile LongValue) :=
  unpartitionedFile .data :: List.replicate deletes (unpartitionedFile .equalityDeletes)

/-- The spec of the manifest of these files, which has no fields. -/
def oneSpec : HashMap String Int × HashMap Int PartitionSpec :=
  (AList.singleton "m" 0, AList.singleton 0 ⟨0, []⟩)

/-- Global deletes are collected one after the other. -/
theorem groupStep_replicate (n : Nat) (groups : ContentGroups LongValue) :
    (List.replicate n (unpartitionedFile .equalityDeletes)).foldlM
      (groupStep oneSpec.1 oneSpec.2 false) groups =
      .ok ⟨groups.data, groups.deletes, groups.globalEqualityDeletes ++
        List.replicate n (unpartitionedFile .equalityDeletes)⟩ := by
  induction n generalizing groups with
  | zero =>
    rw [List.replicate_zero, List.append_nil]
    rfl
  | succ n ih =>
    rw [List.replicate_succ, List.append_cons]
    exact ih ⟨groups.data, groups.deletes,
      groups.globalEqualityDeletes ++ [unpartitionedFile .equalityDeletes]⟩

/-- A single group takes any number of global deletes. -/
theorem groupContentFiles_one_group (n : Nat) : ∃ data deletes,
    groupContentFiles id (oneGroup (n + 1)) oneSpec.1 oneSpec.2 false = .ok (data, deletes) ∧
    data.iter.map (·.1) = [(0, [])] ∧
    (deletesAt deletes (0, [])).equalityDeletes =
      List.replicate (n + 1) (unpartitionedFile .equalityDeletes) := by
  let file := unpartitionedFile .data
  let globals := List.replicate (n + 1) (unpartitionedFile .equalityDeletes)
  have folded : (oneGroup (n + 1)).foldlM (groupStep oneSpec.1 oneSpec.2 false) ⟨∅, ∅, []⟩ =
      .ok ⟨push ∅ (0, []) file, ∅, globals⟩ :=
    foldlM_cons_eq_ok.mpr ⟨⟨push ∅ (0, []) file, ∅, []⟩, rfl, groupStep_replicate (n + 1) _⟩
  refine ⟨push ∅ (0, []) file, copyGlobal globals ∅ (0, []), ?_, rfl, ?_⟩
  · exact bind_eq_ok.mpr ⟨_, folded, rfl⟩
  · rw [copyGlobal, deletesAt_insert, if_pos rfl]
    rfl

/-- More global deletes than the limit are applied to a single group. -/
theorem groupContentFiles_unbounded : ∃ data deletes,
    groupContentFiles id (oneGroup 1025) oneSpec.1 oneSpec.2 false = .ok (data, deletes) ∧
    ¬ (data.iter.map fun group => globalApplications (scopeIn oneSpec.1 oneSpec.2 false) deletes
      group.1).sum ≤ maxGlobalDeleteApplications := by
  obtain ⟨data, deletes, run, keys, collected⟩ := groupContentFiles_one_group 1024
  refine ⟨data, deletes, run, ?_⟩
  have applied : (data.iter.map fun group => globalApplications (scopeIn oneSpec.1 oneSpec.2 false)
      deletes group.1) = [(0, [])].map
        (globalApplications (scopeIn oneSpec.1 oneSpec.2 false) deletes) := by
    rw [← keys, List.map_map]
    rfl
  have all : ofScope (scopeIn oneSpec.1 oneSpec.2 false)
      (List.replicate (1024 + 1) (unpartitionedFile .equalityDeletes)) .globalEquality =
        List.replicate (1024 + 1) (unpartitionedFile .equalityDeletes) := by
    apply List.filter_eq_self.mpr
    intro file member
    rw [List.eq_of_mem_replicate member]
    rfl
  rw [applied, List.map_singleton, List.sum_singleton, globalApplications, collected, all,
    List.length_replicate]
  decide

theorem groupContentFiles_scope_one : ∃ data deletes,
    groupContentFiles id (oneGroup 1) oneSpec.1 oneSpec.2 false = .ok (data, deletes) ∧
    (∀ key ∈ data, ∀ delete ∈ oneGroup 1,
      scopeIn oneSpec.1 oneSpec.2 false delete = some .globalEquality →
      delete ∈ (deletesAt deletes key).equalityDeletes) := by
  obtain ⟨data, deletes, run, -, -⟩ := groupContentFiles_one_group 0
  obtain ⟨-, -, everywhere, -⟩ := groupContentFiles_scope (fun groups => .refl groups) run
  exact ⟨data, deletes, run, everywhere⟩

end IcebergRust

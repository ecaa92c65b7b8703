import IcebergRust.Table.Assembly
import IcebergRust.Spec.Decimal

/-!
# Which objects a writer touches

Manifests and manifest lists are named by a UUID drawn for the operation that writes them.

* `newManifestLocation_inj` and `newManifestListLocation_inj`: names drawn with different
  UUIDs differ, and so do the manifests one list writer numbers.
* `Store.ChangesOnly` is the frame of a writer: everything not named by its UUIDs stays.
  `Assembles.changesOnly` is that frame for the machine of list assembly.
* `Store.Extends` is what readers of earlier objects use of it.
-/

namespace IcebergRust

/-! ### Names -/

/-- Two texts that are separated by a letter neither first part contains. -/
theorem append_cons_cancel {α : Type} {c : α} {x y r s : List α} (left : c ∉ x) (right : c ∉ y)
    (same : x ++ c :: r = y ++ c :: s) : x = y ∧ r = s := by
  induction x generalizing y with
  | nil =>
    cases y with
    | nil => exact ⟨rfl, (List.cons.inj same).2⟩
    | cons b y =>
      have first := (List.cons.inj same).1
      exact absurd (by rw [first]; exact List.mem_cons_self) right
  | cons a x ih =>
    cases y with
    | nil =>
      have first := (List.cons.inj same).1
      exact absurd (by rw [← first]; exact List.mem_cons_self) left
    | cons b y =>
      obtain ⟨rfl, rest⟩ := List.cons.inj same
      obtain ⟨rfl, tails⟩ := ih (fun member => left (List.mem_cons_of_mem _ member))
        (fun member => right (List.mem_cons_of_mem _ member)) rest
      exact ⟨rfl, tails⟩

theorem repr_toList_inj {m n : Nat} (same : (Nat.repr m).toList = (Nat.repr n).toList) : m = n := by
  rw [Nat.toList_repr, Nat.toList_repr] at same
  have values := congrArg (fun digits => Nat.ofDigitChars 10 digits 0) same
  simpa using values

/-- Manifest locations drawn with different UUIDs or different numbers differ. -/
theorem newManifestLocation_inj {location u v : String} {i j : Nat}
    (same : newManifestLocation location u i = newManifestLocation location v j) : u = v ∧ i = j := by
  have texts := congrArg String.toList same
  simp only [newManifestLocation, String.toList_append, List.append_assoc, Nat.toString_eq_repr,
    List.append_cancel_left_eq] at texts
  rw [← List.append_assoc, ← List.append_assoc, ← List.append_assoc, ← List.append_assoc] at texts
  have names := congrArg List.reverse (List.append_cancel_right texts)
  rw [List.reverse_append, List.reverse_append, List.reverse_append, List.reverse_append] at names
  obtain ⟨digits, rest⟩ := @append_cons_cancel _ 'm' _ _ ('-' :: u.toList.reverse)
    ('-' :: v.toList.reverse)
    (fun member => notMem_digits (by decide) i (List.mem_reverse.mp member))
    (fun member => notMem_digits (by decide) j (List.mem_reverse.mp member)) names
  refine ⟨?_, repr_toList_inj (List.reverse_injective digits)⟩
  exact String.toList_inj.mp (List.reverse_injective (List.cons.inj rest).2)

theorem repr_toList (n : Int) : ∃ k : Nat, (toString n).toList = (Nat.repr k).toList ∨
    (toString n).toList = '-' :: (Nat.repr k).toList := by
  cases n with
  | ofNat n => exact ⟨n, .inl rfl⟩
  | negSucc n => exact ⟨n + 1, .inr (String.toList_append ..)⟩

/-- Manifest-list locations drawn with different UUIDs differ. -/
theorem newManifestListLocation_inj {location u v : String} {m n : Int}
    (same : newManifestListLocation location m 0 u = newManifestListLocation location n 0 v) :
    u = v := by
  have texts := congrArg String.toList same
  simp only [newManifestListLocation, String.toList_append, List.append_assoc,
    List.append_cancel_left_eq] at texts
  have minus : ∀ k, '-' ∉ (Nat.repr k).toList := notMem_digits (by decide)
  have tails : "-".toList ++ ((toString (0 : Int)).toList ++ ("-".toList ++ (u.toList ++
      ".avro".toList))) = "-".toList ++ ((toString (0 : Int)).toList ++ ("-".toList ++ (v.toList ++
      ".avro".toList))) := by
    obtain ⟨k, here⟩ := repr_toList m
    obtain ⟨l, there⟩ := repr_toList n
    rcases here with here | here <;> rcases there with there | there <;> rw [here, there] at texts
    · obtain ⟨-, rest⟩ := append_cons_cancel (minus k) (minus l) texts
      exact congrArg _ rest
    · obtain ⟨none, -⟩ := append_cons_cancel (minus k) (by simp) (show _ = [] ++ '-' :: _ from texts)
      exact absurd none (repr_ne_nil k)
    · obtain ⟨none, -⟩ := append_cons_cancel (by simp) (minus l) (show [] ++ '-' :: _ = _ from texts)
      exact absurd none.symm (repr_ne_nil l)
    · obtain ⟨-, rest⟩ := append_cons_cancel (minus k) (minus l) (List.cons.inj texts).2
      exact congrArg _ rest
  simp only [List.append_cancel_left_eq] at tails
  exact String.toList_inj.mp (List.append_cancel_right tails)

/-! ### Frames -/

variable {V : Type}

namespace Store

/-- Everything stored before is stored unchanged after. -/
structure Extends (before after : Store V) : Prop where
  manifest : ∀ path file, before.manifest path = some file → after.manifest path = some file
  manifestList : ∀ path file,
    before.manifestList path = some file → after.manifestList path = some file

theorem Extends.refl (store : Store V) : Extends store store :=
  ⟨fun _ _ found => found, fun _ _ found => found⟩

theorem Extends.trans {a b c : Store V} (one : Extends a b) (two : Extends b c) : Extends a c :=
  ⟨fun path file found => two.manifest path file (one.manifest path file found),
    fun path file found => two.manifestList path file (one.manifestList path file found)⟩

/-- No object has a name drawn with the UUID. -/
structure Unused (store : Store V) (location uuid : String) : Prop where
  manifest : ∀ i, store.manifest (newManifestLocation location uuid i) = none
  manifestList : ∀ id, store.manifestList (newManifestListLocation location id 0 uuid) = none

/-- Only objects named by the UUIDs have changed. -/
structure ChangesOnly (location : String) (uuids : List String) (before after : Store V) : Prop where
  manifest : ∀ path, (∀ uuid ∈ uuids, ∀ i, path ≠ newManifestLocation location uuid i) →
    after.manifest path = before.manifest path
  manifestList : ∀ path,
    (∀ uuid ∈ uuids, ∀ id, path ≠ newManifestListLocation location id 0 uuid) →
    after.manifestList path = before.manifestList path

theorem ChangesOnly.refl (location : String) (uuids : List String) (store : Store V) :
    ChangesOnly location uuids store store :=
  ⟨fun _ _ => rfl, fun _ _ => rfl⟩

variable {location : String}

theorem ChangesOnly.trans {uuids : List String} {a b c : Store V}
    (one : ChangesOnly location uuids a b) (two : ChangesOnly location uuids b c) :
    ChangesOnly location uuids a c :=
  ⟨fun path apart => (two.manifest path apart).trans (one.manifest path apart),
    fun path apart => (two.manifestList path apart).trans (one.manifestList path apart)⟩

theorem ChangesOnly.mono {few many : List String} {before after : Store V}
    (changes : ChangesOnly location few before after) (within : few ⊆ many) :
    ChangesOnly location many before after :=
  ⟨fun path apart => changes.manifest path fun uuid member => apart uuid (within member),
    fun path apart => changes.manifestList path fun uuid member => apart uuid (within member)⟩

theorem changesOnly_putManifest (store : Store V) (location uuid : String) (i : Nat)
    (file : ManifestFile V) :
    ChangesOnly location [uuid] store
      (store.putManifest (newManifestLocation location uuid i) file) :=
  ⟨fun _ apart => store.putManifest_manifest_of_ne file (apart uuid List.mem_cons_self i),
    fun _ _ => rfl⟩

theorem changesOnly_putManifestList (store : Store V) (location uuid : String) (id : Int)
    (file : ManifestListFile V) :
    ChangesOnly location [uuid] store
      (store.putManifestList (newManifestListLocation location id 0 uuid) file) :=
  ⟨fun _ _ => rfl,
    fun _ apart => store.putManifestList_manifestList_of_ne file (apart uuid List.mem_cons_self id)⟩

/-- Objects under fresh names leave all others as they are. -/
theorem ChangesOnly.extends {uuids : List String} {before after : Store V}
    (changes : ChangesOnly location uuids before after)
    (unused : ∀ uuid ∈ uuids, before.Unused location uuid) : Extends before after := by
  constructor
  · intro path file found
    rw [changes.manifest path, found]
    rintro uuid member i rfl
    rw [(unused uuid member).manifest i] at found
    cases found
  · intro path file found
    rw [changes.manifestList path, found]
    rintro uuid member id rfl
    rw [(unused uuid member).manifestList id] at found
    cases found

/-- Objects under some UUIDs leave the names of another one unused. -/
theorem ChangesOnly.unused {uuid : String} {uuids : List String} {before after : Store V}
    (changes : ChangesOnly location uuids before after) (apart : uuid ∉ uuids)
    (unused : before.Unused location uuid) : after.Unused location uuid := by
  constructor
  · intro i
    rw [changes.manifest, unused.manifest]
    intro other member j same
    exact apart ((newManifestLocation_inj same).1 ▸ member)
  · intro id
    rw [changes.manifestList, unused.manifestList]
    intro other member j same
    exact apart (newManifestListLocation_inj same ▸ member)

end Store

/-! ### The machine -/

section Machine

open ManifestWriter

variable [PartitionValue V] {metadata : TableMetadata} {snapshotId : Int} {uuid location : String}
  {avro : EntrySchema} {begun filled : ManifestWriter V} {b : Assembly V}

open Fallible

/-- Appending entries keeps the location of the manifest. -/
theorem fill_path {entries : List (ManifestEntry V)}
    (run : entries.foldlM (append metadata) begun = .ok filled) :
    filled.manifest.manifestPath = begun.manifest.manifestPath := by
  refine foldlM_invariant
    (fun writer => writer.manifest.manifestPath = begun.manifest.manifestPath) ?_ run rfl
  intro entry _ before after here appended
  obtain ⟨-, stored, summaries, -, rfl⟩ := append_spec appended
  exact here

omit [PartitionValue V] in
theorem new_path {content : ManifestContent}
    (run : ManifestWriter.new location snapshotId avro metadata content = .ok begun) :
    begun.manifest.manifestPath = location := by
  obtain ⟨-, -, row⟩ := new_spec run
  rw [row]

variable {row : ManifestListEntry V} {a : Assembly V}

theorem fromExisting_path {existing : List (ManifestEntry V)}
    (run : fromExisting existing row snapshotId avro metadata = .ok begun) :
    begun.manifest.manifestPath = row.manifestPath := by
  obtain ⟨stored, state, -, -, -, -, same⟩ := fromExisting_spec run
  rw [same]
  rfl

theorem fromExistingWithFilter_path {existing : List (ManifestEntry V)} {paths : List String}
    {source : Option (Schema × PartitionSpec)} {stats : FilteredManifestStats V}
    (run : fromExistingWithFilter existing row paths snapshotId avro metadata source =
      .ok (begun, stats)) : begun.manifest.manifestPath = row.manifestPath := by
  obtain ⟨context, resolved, of, -, result⟩ := fromExistingWithFilter_spec run
  obtain ⟨partitions, state, same, -⟩ := result.row
  rw [same, of.row]
  rfl

/-- A step stores at most one object, the manifest of the next number. -/
inductive Stores (location uuid : String) (a b : Assembly V) : Prop
  | nothing (store : b.store = a.store) (count : b.count = a.count)
  | manifest (file : ManifestFile V)
      (store : b.store = a.store.putManifest (newManifestLocation location uuid a.count) file)
      (count : b.count = a.count + 1)

omit [PartitionValue V] in
theorem putManifest_of_path (store : Store V) {writer : ManifestWriter V}
    (path : writer.manifest.manifestPath = location) :
    store.putManifest writer.manifest.manifestPath writer.file =
      store.putManifest location writer.file := by
  rw [path]

theorem AssemblyStep.stores {mixes : Prop} (step : AssemblyStep metadata snapshotId uuid mixes a b) :
    Stores metadata.location uuid a b := by
  cases step with
  | list a row output listed => exact .nothing rfl rfl
  | displace a row versioned => exact .nothing rfl rfl
  | retag a mixed source target entry dead => exact .nothing rfl rfl
  | promote a content entry partition => exact .nothing rfl rfl
  | dissolve a row file paths existing versioned fetched read => exact .nothing rfl rfl
  | write a content avro entries begun filled version begins fills =>
    have path := (fill_path fills).trans (new_path begins)
    exact .manifest filled.file (putManifest_of_path a.store path) rfl
  | rewrite a row file avro existing entries begun filled versioned version fetched read begins
      fills =>
    have path := (fill_path fills).trans (fromExisting_path begins)
    exact .manifest filled.file (putManifest_of_path a.store path) rfl
  | filter a row file paths source avro existing entries begun filled stats alone version fetched
      read begins fills =>
    have path := (fill_path fills).trans (fromExistingWithFilter_path begins)
    exact .manifest filled.file (putManifest_of_path a.store path) rfl
  | vanish a row file paths source avro existing filtered stats version fetched read begins empty =>
    have path := fromExistingWithFilter_path begins
    exact .manifest filtered.file (putManifest_of_path a.store path) rfl

/-- A row of an assembly whose manifest is in the store, where no later manifest takes its place. -/
structure Backed (location uuid : String) (a : Assembly V) (row : ManifestListEntry V) : Prop where
  stored : ∃ file, a.store.manifest row.manifestPath = some file
  apart : ∀ i, a.count ≤ i → row.manifestPath ≠ newManifestLocation location uuid i

section

omit [PartitionValue V]

/-- Storing the next manifest leaves the others alone. -/
theorem Backed.manifest (backed : Backed location uuid a row) (stores : Stores location uuid a b) :
    b.store.manifest row.manifestPath = a.store.manifest row.manifestPath := by
  cases stores with
  | nothing store _ => rw [store]
  | manifest file store _ =>
    rw [store, Store.putManifest_manifest_of_ne _ _ (backed.apart _ (le_refl _))]

theorem Backed.stores (backed : Backed location uuid a row) (stores : Stores location uuid a b) :
    Backed location uuid b row := by
  constructor
  · rw [backed.manifest stores]
    exact backed.stored
  · intro i later
    cases stores with
    | nothing _ count => exact backed.apart i (count ▸ later)
    | manifest _ _ count =>
      refine backed.apart i ?_
      omega

theorem Backed.congr {other : ManifestListEntry V} (backed : Backed location uuid a row)
    (path : other.manifestPath = row.manifestPath) : Backed location uuid a other := by
  constructor
  · rw [path]
    exact backed.stored
  · rw [path]
    exact backed.apart

/-- A manifest that has just been written. -/
theorem wrote_backed
    (path : filled.manifest.manifestPath = newManifestLocation location uuid a.count) :
    Backed location uuid (a.wrote filled) filled.manifest := by
  constructor
  · exact ⟨filled.file, Store.putManifest_manifest_self ..⟩
  · intro i later same
    rw [path] at same
    have count := (newManifestLocation_inj same).2
    have next : a.count + 1 ≤ i := later
    omega

end

/-- All rows have their manifests. -/
structure AllBacked (location uuid : String) (a : Assembly V) : Prop where
  held : ∀ row ∈ a.held, Backed location uuid a row
  listed : ∀ row ∈ a.output.writer.rows, Backed location uuid a row

section

omit [PartitionValue V]

theorem toRecord_path {record : ManifestListEntry V} (run : row.toRecord = .ok record) :
    record.manifestPath = row.manifestPath := by
  unfold ManifestListEntry.toRecord at run
  split at run
  · cases run
    rfl
  · split at run
    · cases run
      cases row.formatVersion <;> rfl
    · cases run

theorem appendSer_spec {list written : ManifestListFile V} (run : list.appendSer row = .ok written) :
    row.formatVersion = list.formatVersion ∧ ∃ record, row.toRecord = .ok record ∧
      written = { list with rows := list.rows ++ [record] } := by
  simp only [ManifestListFile.appendSer, guard_eq_ok, bind_eq_ok, not_not] at run
  obtain ⟨version, record, converts, run⟩ := run
  cases run
  exact ⟨version, record, converts, rfl⟩

/-- What is appended to a list for a row: the record of the row, which may have been given a first
row id. -/
theorem appendManifest_spec {output after : ListOutput V}
    (run : appendManifest output row = .ok after) :
    ∃ firstRowId record, ({ row with formatVersion := output.writer.formatVersion, firstRowId } :
        ManifestListEntry V).toRecord = .ok record ∧
      after.writer = { output.writer with rows := output.writer.rows ++ [record] } := by
  unfold appendManifest at run
  split at run
  · rename_i version
    split at run
    · cases run
    · obtain ⟨⟨next, assigned⟩, assigns, run⟩ := bind_eq_ok.mp run
      obtain ⟨-, run⟩ := guard_eq_ok.mp run
      obtain ⟨written, appends, run⟩ := bind_eq_ok.mp run
      cases run
      obtain ⟨-, record, converts, rfl⟩ := appendSer_spec appends
      have same : assigned = { row with formatVersion := .v3, firstRowId := assigned.firstRowId } := by
        unfold RowIdAssigner.assign at assigns
        split at assigns
        · cases assigns
          rfl
        · split at assigns
          · obtain ⟨-, assigns⟩ := guard_eq_ok.mp assigns
            cases assigns
            rfl
          · simp only [bind_eq_ok] at assigns
            obtain ⟨added, -, existing, -, sum, -, total, -, assigns⟩ := assigns
            cases assigns
            rfl
      exact ⟨assigned.firstRowId, record, by rw [version, ← same]; exact converts, rfl⟩
  · rename_i version
    obtain ⟨-, -, run⟩ := bind_eq_ok.mp run
    obtain ⟨written, appends, run⟩ := bind_eq_ok.mp run
    cases run
    obtain ⟨-, record, converts, rfl⟩ := appendSer_spec appends
    exact ⟨none, record, by rw [version]; exact converts, rfl⟩
  · rename_i version
    obtain ⟨written, appends, run⟩ := bind_eq_ok.mp run
    cases run
    obtain ⟨-, record, converts, rfl⟩ := appendSer_spec appends
    exact ⟨none, record, by rw [version]; exact converts, rfl⟩

end

/-- The ways in which a step writes a manifest: from nothing, or with the entries of one whose row is
held. -/
inductive WrittenFrom (metadata : TableMetadata) (snapshotId : Int) (uuid : String) (a : Assembly V)
    (filled : ManifestWriter V) : Prop
  | new (content : ManifestContent) (avro : EntrySchema) (entries : List (ManifestEntry V))
      (begun : ManifestWriter V) (version : avro.formatVersion = metadata.formatVersion)
      (begins : ManifestWriter.new (newManifestLocation metadata.location uuid a.count) snapshotId
        avro metadata content = .ok begun)
      (fills : entries.foldlM (append metadata) begun = .ok filled)
      (loose : ∀ entry ∈ entries, (content, entry) ∈ a.loose)
  | existing (row : ManifestListEntry V) (held : row ∈ a.held) (file : ManifestFile V)
      (avro : EntrySchema) (existing entries : List (ManifestEntry V)) (begun : ManifestWriter V)
      (versioned : metadata.formatVersion ≠ .v3)
      (version : avro.formatVersion = metadata.formatVersion)
      (fetched : a.store.getManifest row.manifestPath = .ok file)
      (read : file.read = .ok existing)
      (begins : fromExisting existing
        { row with manifestPath := newManifestLocation metadata.location uuid a.count } snapshotId
        avro metadata = .ok begun)
      (fills : entries.foldlM (append metadata) begun = .ok filled)
      (loose : ∀ entry ∈ entries, (row.content, entry) ∈ a.loose)
  | filtered (row : ManifestListEntry V) (held : row ∈ a.held) (file : ManifestFile V)
      (paths : List String) (source : Option (Schema × PartitionSpec)) (avro : EntrySchema)
      (existing entries : List (ManifestEntry V)) (begun : ManifestWriter V)
      (stats : FilteredManifestStats V) (alone : metadata.formatVersion = .v3 → entries = [])
      (version : avro.formatVersion = metadata.formatVersion)
      (fetched : a.store.getManifest row.manifestPath = .ok file)
      (read : file.read = .ok existing)
      (begins : fromExistingWithFilter existing
        { row with manifestPath := newManifestLocation metadata.location uuid a.count } paths
        snapshotId avro metadata source = .ok (begun, stats))
      (fills : entries.foldlM (append metadata) begun = .ok filled)
      (loose : ∀ entry ∈ entries, (row.content, entry) ∈ a.loose)

/-- A manifest is written to the location of the next number. -/
theorem WrittenFrom.path (written : WrittenFrom metadata snapshotId uuid a filled) :
    filled.manifest.manifestPath = newManifestLocation metadata.location uuid a.count := by
  cases written with
  | new content avro entries begun version begins fills loose =>
    exact (fill_path fills).trans (new_path begins)
  | existing row held file avro existing entries begun versioned version fetched read begins fills
      loose => exact (fill_path fills).trans (fromExisting_path begins)
  | filtered row held file paths source avro existing entries begun stats alone version fetched read
      begins fills loose => exact (fill_path fills).trans (fromExistingWithFilter_path begins)

/-- What a step does to the rows: at most one row is new to the held ones, that of a manifest it has
written, and at most one is new to the list, the record of a held row. -/
structure StepRows (metadata : TableMetadata) (snapshotId : Int) (uuid : String)
    (a b : Assembly V) : Prop where
  version : b.output.writer.formatVersion = a.output.writer.formatVersion
  held : ∀ row ∈ b.held, row ∈ a.held ∨ ∃ filled, row = filled.manifest ∧
    b.store = (a.wrote filled).store ∧ b.count = a.count + 1 ∧
      WrittenFrom metadata snapshotId uuid a filled
  listed : ∀ record ∈ b.output.writer.rows, record ∈ a.output.writer.rows ∨
    ∃ row ∈ a.held, ∃ firstRowId, ({ row with
      formatVersion := a.output.writer.formatVersion, firstRowId } :
        ManifestListEntry V).toRecord = .ok record

omit [PartitionValue V] in
theorem mem_tagged_add {content : ManifestContent} {entries : List (ManifestEntry V)}
    {loose : Multiset (ManifestContent × ManifestEntry V)} :
    ∀ entry ∈ entries, (content, entry) ∈ tagged content entries + loose := fun _ member =>
  Multiset.mem_add.mpr (.inl (Multiset.mem_coe.mpr (List.mem_map_of_mem member)))

theorem AssemblyStep.rows {mixes : Prop} (step : AssemblyStep metadata snapshotId uuid mixes a b) :
    StepRows metadata snapshotId uuid a b := by
  have rest {row one : ManifestListEntry V} {held : Multiset (ManifestListEntry V)}
      (member : one ∈ held) : one ∈ row ::ₘ held := Multiset.mem_cons_of_mem member
  cases step with
  | list a row output listed =>
    obtain ⟨first, record, converts, written⟩ := appendManifest_spec listed
    refine ⟨congrArg (·.formatVersion) written, fun one member => .inl (rest member), ?_⟩
    intro one member
    rw [show output.writer.rows = _ from congrArg (·.rows) written] at member
    rcases List.mem_append.mp member with old | new
    · exact .inl old
    · obtain rfl := List.mem_singleton.mp new
      exact .inr ⟨row, Multiset.mem_cons_self row _, first, converts⟩
  | retag a mixed source target entry dead =>
    exact ⟨rfl, fun _ member => .inl member, fun _ member => .inl member⟩
  | promote a content entry partition =>
    exact ⟨rfl, fun _ member => .inl member, fun _ member => .inl member⟩
  | write a content avro entries begun filled version begins fills =>
    refine ⟨rfl, fun one member => ?_, fun _ member => .inl member⟩
    refine (Multiset.mem_cons.mp member).symm.imp id fun same => ⟨filled, same, rfl, rfl, ?_⟩
    exact .new content avro entries begun version begins fills mem_tagged_add
  | rewrite a row file avro existing entries begun filled versioned version fetched read begins
      fills =>
    refine ⟨rfl, fun one member => ?_, fun _ member => .inl member⟩
    refine (Multiset.mem_cons.mp member).symm.imp rest fun same => ⟨filled, same, rfl, rfl, ?_⟩
    exact .existing row (Multiset.mem_cons_self row _) file avro existing entries begun versioned
      version fetched read begins fills mem_tagged_add
  | filter a row file paths source avro existing entries begun filled stats alone version fetched
      read begins fills =>
    refine ⟨rfl, fun one member => ?_, fun _ member => .inl member⟩
    refine (Multiset.mem_cons.mp member).symm.imp rest fun same => ⟨filled, same, rfl, rfl, ?_⟩
    exact .filtered row (Multiset.mem_cons_self row _) file paths source avro existing entries begun
      stats alone version fetched read begins fills mem_tagged_add
  | _ => exact ⟨rfl, fun _ member => .inl (rest member), fun _ member => .inl member⟩

/-- Every step leaves all rows with their manifests. -/
theorem AssemblyStep.allBacked {mixes : Prop}
    (step : AssemblyStep metadata snapshotId uuid mixes a b)
    (here : AllBacked metadata.location uuid a) : AllBacked metadata.location uuid b := by
  have stores := step.stores
  obtain ⟨-, held, listed⟩ := step.rows
  constructor
  · intro row member
    rcases held row member with old | ⟨filled, rfl, store, count, written⟩
    · exact (here.held row old).stores stores
    · have backed := wrote_backed (a := a) written.path
      refine ⟨by rw [store]; exact backed.stored, fun i later => backed.apart i ?_⟩
      rw [count] at later
      exact later
  · intro record member
    rcases listed record member with old | ⟨row, among, first, converts⟩
    · exact (here.listed record old).stores stores
    · have path := toRecord_path converts
      exact ((here.held row among).congr path).stores stores

/-- The machine touches only manifests named by its UUID. -/
theorem Assembles.changesOnly {mixes : Prop} (run : Assembles metadata snapshotId uuid mixes a b) :
    Store.ChangesOnly metadata.location [uuid] a.store b.store := by
  refine run.invariant (I := fun b => Store.ChangesOnly metadata.location [uuid] a.store b.store) ?_
    (.refl _ _ _)
  intro b c step here
  cases step.stores with
  | nothing store _ => exact store ▸ here
  | manifest file store _ =>
    rw [store]
    exact here.trans (b.store.changesOnly_putManifest _ _ _ file)

end Machine

end IcebergRust

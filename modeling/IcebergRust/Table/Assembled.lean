import IcebergRust.Spec.LongValue
import IcebergRust.Table.Assembly

/-!
# The list writer as a run of the machine

Every function of `ManifestListWriter` that writes manifests or lists rows is a run of the
machine of `Assembly`, from the list writer it is called on to the one it returns.

* `appendFiltered_fills` and `appendMultipleFiltered_fills` are the unsplit and the split path of
  adding entries; `appendAndFilter_assembles` removes files from manifests.
* `Ready` is what they need of the selected manifests, and `Continues` what they keep.
-/

namespace IcebergRust

open Fallible

variable {V : Type} [PartitionValue V]

namespace ManifestListWriter

/-- The selected manifests. -/
def held (writer : ManifestListWriter V) : Multiset (ManifestListEntry V) :=
  optional writer.selectedDataManifest + optional writer.selectedDeleteManifest

/-- A list writer with rows held elsewhere and entries still to be written, as a state of the
machine. -/
def assembly (writer : ManifestListWriter V) (store : Store V)
    (rest : Multiset (ManifestListEntry V))
    (loose : Multiset (ManifestContent × ManifestEntry V)) (ledger : Ledger V) : Assembly V :=
  ⟨store, writer.output, writer.held + rest, loose, ledger, writer.manifestCount⟩

section

omit [PartitionValue V]

theorem held_eq (writer : ManifestListWriter V) (content : ManifestContent) :
    writer.held = optional (writer.selected content) + (writer.takeSelected content).held := by
  cases content with
  | data => simp [held, selected, takeSelected]
  | deletes =>
    simp only [held, selected, takeSelected, optional_none, add_zero]
    exact add_comm _ _

/-- A list writer whose selected manifest has been taken. -/
theorem assembly_eq (writer : ManifestListWriter V) (content : ManifestContent) (store : Store V)
    (loose : Multiset (ManifestContent × ManifestEntry V)) (ledger : Ledger V) :
    writer.assembly store 0 loose ledger =
      ⟨store, writer.output, optional (writer.selected content) +
        (writer.takeSelected content).held, loose, ledger, writer.manifestCount⟩ := by
  rw [assembly, writer.held_eq content, add_zero]

theorem takeSelected_keeps (writer : ManifestListWriter V) (content : ManifestContent) :
    (writer.takeSelected content).commitUuid = writer.commitUuid ∧
      (writer.takeSelected content).output = writer.output ∧
      (writer.takeSelected content).manifestCount = writer.manifestCount := by
  cases content <;> exact ⟨rfl, rfl, rfl⟩

end

variable {avro current : EntrySchema} {row : ManifestListEntry V}
  {selected : Option (ManifestListEntry V)} {uuid : String} {rect : Rectangle V}
  {names : List String}

theorem entrySchema_version {fields : List BoundPartitionField} {version : FormatVersion}
    (run : entrySchema V fields version = .ok avro) : avro.formatVersion = version := by
  simp only [entrySchema, bind_eq_ok] at run
  obtain ⟨columns, -, -, -, run⟩ := run
  injection run with same
  rw [← same]

/-- What the list writer keeps when it has written the manifest of a content. -/
structure Continues (before after : ManifestListWriter V) (content : ManifestContent) : Prop where
  uuid : after.commitUuid = before.commitUuid
  selected : ∀ other, after.selected other = (before.takeSelected content).selected other
  existing : after.nExistingFiles = before.nExistingFiles

/-- The tombstones a filtered append leaves to its caller. -/
def leftOvers (stats : Option (FilteredManifestStats V)) : List (ManifestEntry V) :=
  (stats.map (·.filteredEntries)).getD []

/-- The ledger after the selected manifest has been written, filtered or not. -/
def ledgerAfter (ledger : Ledger V) (selected : Option (ManifestListEntry V))
    (filter : Option (List String)) : Ledger V :=
  match selected with
  | none => ledger
  | some row => ledger.filter row filter

omit [PartitionValue V] in
@[simp] theorem ledgerAfter_none (ledger : Ledger V) (selected : Option (ManifestListEntry V)) :
    ledgerAfter ledger selected none = ledger := by
  cases selected <;> rfl

variable {metadata : TableMetadata} {snapshotId : Int} {mixes : Prop}

/-- What the selected manifests of a list writer satisfy: a version 3 table selects none, and a
selected manifest has the content it is selected for unless contents may mix. -/
structure Ready (writer : ManifestListWriter V) (metadata : TableMetadata) (mixes : Prop) : Prop where
  agree : ∀ content, ∀ row ∈ writer.selected content, content = row.content ∨ mixes
  versioned : ∀ content, ∀ row ∈ writer.selected content, metadata.formatVersion ≠ .v3

variable {writer after : ManifestListWriter V} {content : ManifestContent}
  {filter : Option (List String)} {entries files : List (ManifestEntry V)}
  {stats : Option (FilteredManifestStats V)} {store stored : Store V}
  {parts : List (List (ManifestEntry V))} {manifests : List (ManifestListEntry V)}
  {filesToFilter : HashMap String (List String)}
  {filtered : List (ManifestListEntry V × FilteredManifestStats V)}

omit [PartitionValue V] in
theorem selected_takeSelected {other : ManifestContent}
    (chosen : row ∈ (writer.takeSelected content).selected other) :
    row ∈ writer.selected other := by
  cases content <;> cases other <;> first | exact chosen | simp [takeSelected, selected] at chosen

omit [PartitionValue V] in
theorem Ready.continues {before : ManifestListWriter V} (ready : before.Ready metadata mixes)
    (kept : Continues before after content) : after.Ready metadata mixes := by
  constructor
  · intro other row chosen
    rw [kept.selected] at chosen
    exact ready.agree other row (selected_takeSelected chosen)
  · intro other row chosen
    rw [kept.selected] at chosen
    exact ready.versioned other row (selected_takeSelected chosen)

/-- What the machine does on the way from a list writer to another one, whatever else is loose: it
writes entries of one content and leaves some of the old ones. -/
structure Fills (metadata : TableMetadata) (snapshotId : Int) (mixes : Prop)
    (filter : Option (List String)) (content : ManifestContent) (entries left : List (ManifestEntry V))
    (before after : Store V × ManifestListWriter V) : Prop where
  continues : Continues before.2 after.2 content
  assembles : ∀ loose ledger, Assembles metadata snapshotId before.2.commitUuid mixes
    (before.2.assembly before.1 0 (tagged content entries + loose) ledger)
    (after.2.assembly after.1 0 (tagged content left + loose)
      (ledgerAfter ledger (before.2.selected content) filter))

/-- What the machine does where it leaves nothing. -/
structure Advances (metadata : TableMetadata) (snapshotId : Int) (mixes : Prop)
    (entries : Multiset (ManifestContent × ManifestEntry V))
    (before after : Store V × ManifestListWriter V) : Prop where
  uuid : after.2.commitUuid = before.2.commitUuid
  ready : after.2.Ready metadata mixes
  assembles : ∀ loose ledger, Assembles metadata snapshotId before.2.commitUuid mixes
    (before.2.assembly before.1 0 (entries + loose) ledger) (after.2.assembly after.1 0 loose ledger)

section Advances

variable {first middle last : Store V × ManifestListWriter V}
  {some more : Multiset (ManifestContent × ManifestEntry V)}

theorem Fills.advances
    (fills : Fills metadata snapshotId mixes none content entries [] first last)
    (ready : first.2.Ready metadata mixes) :
    Advances metadata snapshotId mixes (tagged content entries) first last := by
  refine ⟨fills.continues.uuid, ready.continues fills.continues, fun loose ledger => ?_⟩
  simpa using fills.assembles loose ledger

theorem Advances.refl (ready : first.2.Ready metadata mixes) :
    Advances metadata snapshotId mixes 0 first first :=
  ⟨rfl, ready, fun loose _ => (zero_add loose).symm ▸ .refl _⟩

theorem Advances.trans (one : Advances metadata snapshotId mixes some first middle)
    (two : Advances metadata snapshotId mixes more middle last) :
    Advances metadata snapshotId mixes (some + more) first last := by
  refine ⟨two.uuid.trans one.uuid, two.ready, fun loose ledger => ?_⟩
  rw [add_assoc]
  exact (one.assembles (more + loose) ledger).trans (one.uuid ▸ two.assembles loose ledger)

end Advances

omit [PartitionValue V] in
/-- The list writer after its manifest has been written and listed. -/
theorem listed_continues (writer : ManifestListWriter V) (content : ManifestContent)
    (output : ListOutput V) :
    Continues writer { (writer.takeSelected content).advance with output } content where
  uuid := by cases content <;> rfl
  selected := fun other => by cases content <;> cases other <;> rfl
  existing := by cases content <;> rfl

omit [PartitionValue V] in
theorem appendNewManifest_eq_ok :
    writer.appendNewManifest row = .ok after ↔
      ∃ output, appendManifest writer.output row = .ok output ∧ after = { writer with output } := by
  simp only [appendNewManifest, bind_eq_ok, Except.ok.injEq]
  exact exists_congr fun output => and_congr_right fun _ => eq_comm

theorem currentEntrySchema_version (run : currentEntrySchema V metadata = .ok avro) :
    avro.formatVersion = metadata.formatVersion := by
  obtain ⟨fields, -, schema⟩ := bind_eq_ok.mp run
  exact entrySchema_version schema

/-- Beginning a manifest and filling it is one step of the machine, up to the contents of the
entries. -/
theorem begun_assembles (a : Assembly V) {begun filled : ManifestWriter V}
    (version : avro.formatVersion = metadata.formatVersion)
    (begins : beginManifest a.store selected (newManifestLocation metadata.location uuid a.count)
      snapshotId filter content avro metadata = .ok (begun, stats))
    (fills : entries.foldlM (ManifestWriter.append metadata) begun = .ok filled)
    (agree : ∀ row ∈ selected, content = row.content ∨ mixes)
    (versioned : ∀ row ∈ selected, metadata.formatVersion ≠ .v3) :
    Assembles metadata snapshotId uuid mixes
      { a with held := optional selected + a.held, loose := tagged content entries + a.loose }
      { a.wrote filled with
        loose := tagged content (leftOvers stats) + a.loose
        ledger := ledgerAfter a.ledger selected filter } := by
  cases selected with
  | none =>
    simp only [beginManifest, bind_eq_ok] at begins
    obtain ⟨fresh, news, begins⟩ := begins
    injection begins with same
    obtain ⟨rfl, rfl⟩ := Prod.mk.inj same
    have write : AssemblyStep metadata snapshotId uuid mixes _ _ :=
      .write a content avro entries fresh filled version news fills
    simpa [leftOvers, ledgerAfter, Assembly.wrote] using write.assembles
  | some row =>
    have v3 := versioned row rfl
    simp only [beginManifest, bind_eq_ok] at begins
    obtain ⟨file, fetched, existing, read, begins⟩ := begins
    have tag : Assembles metadata snapshotId uuid mixes _ _ :=
      assembles_retag { a with held := row ::ₘ a.held } (agree row rfl) entries
        fun current => absurd current v3
    cases filter with
    | none =>
      simp only [bind_eq_ok] at begins
      obtain ⟨fresh, news, begins⟩ := begins
      injection begins with same
      obtain ⟨rfl, rfl⟩ := Prod.mk.inj same
      have rewrite : AssemblyStep metadata snapshotId uuid mixes _ _ :=
        .rewrite a row file avro existing entries fresh filled v3 version fetched read news fills
      simpa [leftOvers, ledgerAfter, Ledger.filter, Assembly.wrote] using tag.trans rewrite.assembles
    | some paths =>
      simp only [bind_eq_ok] at begins
      obtain ⟨⟨fresh, removed⟩, news, begins⟩ := begins
      injection begins with same
      obtain ⟨rfl, rfl⟩ := Prod.mk.inj same
      have filters : AssemblyStep metadata snapshotId uuid mixes _ _ :=
        .filter a row file paths none avro existing entries fresh filled removed
          (fun v => absurd v v3) version fetched read news fills
      have back : Assembles metadata snapshotId uuid mixes _ _ := assembles_retag
        { a.wrote filled with ledger := a.ledger.filter row (some paths) }
        ((agree row rfl).imp Eq.symm id) removed.filteredEntries fun current => absurd current v3
      simpa [leftOvers, ledgerAfter, Assembly.wrote] using (tag.trans filters.assembles).trans back

/-- Writing entries, with the selected manifest or alone, and listing the manifest. -/
theorem appendFiltered_fills
    (run : writer.appendFiltered metadata store entries snapshotId filter content =
      .ok (stored, after, stats)) (ready : writer.Ready metadata mixes) :
    Fills metadata snapshotId mixes filter content entries (leftOvers stats) (store, writer)
      (stored, after) := by
  simp only [appendFiltered, bind_eq_ok] at run
  obtain ⟨avro, schema, ⟨begun, got⟩, begins, filled, fills, listed, lists, run⟩ := run
  injection run with same
  simp only [Prod.mk.injEq] at same
  obtain ⟨rfl, rfl, rfl⟩ := same
  obtain ⟨output, appended, rfl⟩ := appendNewManifest_eq_ok.mp lists
  refine ⟨listed_continues writer content output, fun loose ledger => ?_⟩
  have written := begun_assembles
    ⟨store, writer.output, (writer.takeSelected content).held, loose, ledger,
      writer.manifestCount⟩
    (currentEntrySchema_version schema) begins fills (ready.agree content) (ready.versioned content)
  have list : AssemblyStep metadata snapshotId writer.commitUuid mixes _ _ :=
    .list ⟨store.putManifest filled.manifest.manifestPath filled.file, writer.output,
      (writer.takeSelected content).held, tagged content (leftOvers got) + loose,
      ledgerAfter ledger (writer.selected content) filter, writer.manifestCount + 1⟩
      filled.manifest output (by cases content <;> exact appended)
  have finish : ({ (writer.takeSelected content).advance with output } :
        ManifestListWriter V).assembly (filled.finish store).1 0
        (tagged content (leftOvers got) + loose)
        (ledgerAfter ledger (writer.selected content) filter) =
      ⟨store.putManifest filled.manifest.manifestPath filled.file, output,
        (writer.takeSelected content).held, tagged content (leftOvers got) + loose,
        ledgerAfter ledger (writer.selected content) filter, writer.manifestCount + 1⟩ := by
    rw [assembly, add_zero]
    cases content <;> rfl
  dsimp only
  rw [writer.assembly_eq content, finish]
  exact written.trans list.assembles

theorem appendFiltered_stats
    (run : writer.appendFiltered metadata store entries snapshotId none content =
      .ok (stored, after, stats)) : stats = none := by
  simp only [appendFiltered, bind_eq_ok] at run
  obtain ⟨avro, -, ⟨begun, got⟩, begins, filled, -, listed, -, run⟩ := run
  injection run with same
  simp only [Prod.mk.injEq] at same
  rw [← same.2.2]
  cases h : writer.selected content with
  | none =>
    simp only [h, beginManifest, bind_eq_ok] at begins
    obtain ⟨fresh, -, begins⟩ := begins
    cases begins
    rfl
  | some row =>
    simp only [h, beginManifest, bind_eq_ok] at begins
    obtain ⟨file, -, existing, -, fresh, -, begins⟩ := begins
    cases begins
    rfl

/-- Nothing is left over where there is no selected manifest. -/
theorem appendFiltered_unselected
    (run : writer.appendFiltered metadata store entries snapshotId filter content =
      .ok (stored, after, stats)) (unselected : writer.selected content = none) :
    leftOvers stats = [] := by
  simp only [appendFiltered, unselected, beginManifest, bind_eq_ok] at run
  obtain ⟨avro, -, ⟨begun, got⟩, ⟨fresh, -, begins⟩, filled, -, listed, -, run⟩ := run
  cases begins
  injection run with same
  simp only [Prod.mk.injEq] at same
  rw [← same.2.2]
  rfl

theorem append_advances
    (run : writer.append metadata store entries snapshotId content = .ok (stored, after))
    (ready : writer.Ready metadata mixes) :
    Advances metadata snapshotId mixes (tagged content entries) (store, writer) (stored, after) := by
  simp only [append, bind_eq_ok] at run
  obtain ⟨⟨next, listed, stats⟩, appends, run⟩ := run
  injection run with same
  obtain ⟨rfl, rfl⟩ := Prod.mk.inj same
  obtain rfl : stats = none := appendFiltered_stats appends
  exact Fills.advances (appendFiltered_fills appends ready) ready

/-! ### The split path -/

theorem splitStep_perm {halves after : Halves V} {entry : ManifestEntry V}
    (run : splitStep rect names halves entry = .ok after) :
    (after.smaller ++ after.larger).Perm (halves.smaller ++ halves.larger ++ [entry]) := by
  simp only [splitStep, bind_eq_ok] at run
  obtain ⟨position, -, run⟩ := run
  have left : (halves.smaller ++ [entry] ++ halves.larger).Perm
      (halves.smaller ++ halves.larger ++ [entry]) := by
    rw [List.append_assoc, List.append_assoc]
    exact List.perm_append_comm.append_left halves.smaller
  cases position with
  | none =>
    cases run
    exact left
  | some position =>
    simp only [bind_eq_ok] at run
    obtain ⟨fromLower, -, toUpper, -, ordering, -, run⟩ := run
    cases ordering <;>
    · simp only [bind_eq_ok] at run
      obtain ⟨grown, -, run⟩ := run
      cases run
      first | exact left | simp

theorem splitDatafilesOnce_perm {smaller larger : List (ManifestEntry V) × Rectangle V}
    (run : splitDatafilesOnce files rect names = .ok (smaller, larger)) :
    (smaller.1 ++ larger.1).Perm files := by
  simp only [splitDatafilesOnce, bind_eq_ok] at run
  obtain ⟨ordering, -, run⟩ := run
  cases ordering with
  | eq =>
    cases run
    exact .of_eq (List.take_append_drop _ files)
  | lt | gt =>
    simp only [bind_eq_ok] at run
    obtain ⟨halves, folded, run⟩ := run
    cases run
    exact foldlM_prefix_invariant
      (fun done (halves : Halves V) => (halves.smaller ++ halves.larger).Perm done)
      (fun done entry a b _ here stepped => (splitStep_perm stepped).trans (here.append_right _))
      folded (.refl _)

/-- Splitting entries into parts neither loses nor repeats one. -/
theorem splitDatafiles_perm {n : Nat} (run : splitDatafiles files rect names n = .ok parts) :
    parts.flatten.Perm files := by
  induction n generalizing files rect parts with
  | zero => cases run
  | succ n ih =>
    simp only [splitDatafiles, bind_eq_ok] at run
    obtain ⟨⟨smaller, larger⟩, once, run⟩ := run
    have halves := splitDatafilesOnce_perm once
    split at run
    · cases run
      refine .trans (.of_eq ?_) halves
      cases smaller.1 <;> cases larger.1 <;> simp
    · simp only [bind_eq_ok] at run
      obtain ⟨first, one, second, two, run⟩ := run
      cases run
      rw [List.flatten_append]
      exact ((ih one).append (ih two)).trans halves

/-- Each halving at most doubles the number of parts. -/
theorem length_splitDatafiles_le {n : Nat} (run : splitDatafiles files rect names n = .ok parts) :
    parts.length ≤ 2 ^ n := by
  induction n generalizing files rect parts with
  | zero => cases run
  | succ n ih =>
    simp only [splitDatafiles, bind_eq_ok] at run
    obtain ⟨⟨smaller, larger⟩, -, run⟩ := run
    split at run
    · rename_i last
      cases run
      rw [last]
      exact List.length_filter_le _ _
    · simp only [bind_eq_ok] at run
      obtain ⟨first, one, second, two, run⟩ := run
      cases run
      rw [List.length_append, Nat.pow_succ, Nat.mul_two]
      exact Nat.add_le_add (ih one) (ih two)

theorem ne_nil_of_mem_splitDatafiles {n : Nat} (run : splitDatafiles files rect names n = .ok parts) :
    ∀ part ∈ parts, part ≠ [] := by
  induction n generalizing files rect parts with
  | zero => cases run
  | succ n ih =>
    simp only [splitDatafiles, bind_eq_ok] at run
    obtain ⟨⟨smaller, larger⟩, -, run⟩ := run
    split at run
    · cases run
      rintro part member rfl
      cases (List.mem_filter.mp member).2
    · simp only [bind_eq_ok] at run
      obtain ⟨first, one, second, two, run⟩ := run
      cases run
      intro part member
      rcases List.mem_append.mp member with here | here
      · exact ih one part here
      · exact ih two part here

/-- Splitting hands every entry to exactly one of at most `2 ^ n` parts, none of them empty. -/
theorem splitDatafiles_conserves {n : Nat} {files : List (ManifestEntry V)} {rect : Rectangle V}
    {names : List String} {parts : List (List (ManifestEntry V))}
    (run : splitDatafiles files rect names n = .ok parts) :
    parts.flatten.Perm files ∧ parts.length ≤ 2 ^ n ∧ ∀ part ∈ parts, part ≠ [] :=
  ⟨splitDatafiles_perm run, length_splitDatafiles_le run, ne_nil_of_mem_splitDatafiles run⟩

section Witness

/-- A data file of a table that is partitioned by one `long` column. -/
def partitionedEntry (value : Option LongValue) : ManifestEntry LongValue where
  formatVersion := .v2
  status := .added
  snapshotId := none
  sequenceNumber := none
  dataFile := { longFile "file" 1 with partition := ⟨[("x", value)]⟩ }

/-- Two files at one end of the rectangle, one without a value and one at the other end. -/
theorem splitDatafiles_conserves_long : ∃ parts,
    splitDatafiles ([some ⟨1⟩, none, some ⟨2⟩, some ⟨9⟩].map partitionedEntry) ⟨[⟨1⟩], [⟨9⟩]⟩ ["x"]
      2 = .ok parts ∧ parts.length ≤ 4 := by
  have splits : ∃ parts, splitDatafiles ([some ⟨1⟩, none, some ⟨2⟩, some ⟨9⟩].map partitionedEntry)
      ⟨[⟨1⟩], [⟨9⟩]⟩ ["x"] 2 = .ok parts := ⟨_, rfl⟩
  obtain ⟨parts, run⟩ := splits
  exact ⟨parts, run, (splitDatafiles_conserves run).2.1⟩

end Witness

/-- Taking the selected manifest apart; its entries are put to the content they are written to. -/
theorem splitSource_assembles (a : Assembly V) {stats : FilteredManifestStats V}
    {existing : List (ManifestEntry V)}
    (run : splitSource a.store selected filter = .ok (stats, existing))
    (agree : ∀ row ∈ selected, content = row.content ∨ mixes)
    (versioned : ∀ row ∈ selected, metadata.formatVersion ≠ .v3) :
    Assembles metadata snapshotId uuid mixes { a with held := optional selected + a.held }
      { a with
        loose := tagged content existing + (tagged content stats.filteredEntries + a.loose)
        ledger := ledgerAfter a.ledger selected filter } := by
  cases selected with
  | none =>
    cases run
    simpa [FilteredManifestStats.empty, ledgerAfter] using Assembles.refl a
  | some row =>
    simp only [splitSource, bind_eq_ok] at run
    obtain ⟨file, fetched, entries, read, run⟩ := run
    injection run with same
    have dissolve : AssemblyStep metadata snapshotId uuid mixes _ _ :=
      .dissolve a row file filter entries (versioned row rfl) fetched read
    rw [same] at dissolve
    have allowed := (agree row rfl).imp Eq.symm id
    have live : Assembles metadata snapshotId uuid mixes _ _ := assembles_retag
      { a with
        loose := tagged row.content stats.filteredEntries + a.loose
        ledger := a.ledger.filter row filter } allowed existing
      fun current => absurd current (versioned row rfl)
    have gone : Assembles metadata snapshotId uuid mixes _ _ := assembles_retag
      { a with
        loose := tagged content existing + a.loose
        ledger := a.ledger.filter row filter } allowed stats.filteredEntries
      fun current => absurd current (versioned row rfl)
    simp only [add_left_comm (tagged _ stats.filteredEntries)] at gone
    simpa [ledgerAfter] using (dissolve.assembles.trans live).trans gone

theorem writeParts_keeps (run : writeParts metadata avro snapshotId content store writer parts =
      .ok (stored, after, manifests)) :
    after = { writer with manifestCount := after.manifestCount } := by
  induction parts generalizing store writer manifests with
  | nil =>
    cases run
    rfl
  | cons part parts ih =>
    simp only [writeParts, bind_eq_ok] at run
    obtain ⟨begun, -, filled, -, ⟨next, advanced, others⟩, tail, run⟩ := run
    injection run with same
    simp only [Prod.mk.injEq] at same
    obtain ⟨rfl, rfl, rfl⟩ := same
    have later := ih tail
    exact later

/-- Writing the parts of a split; the rows are held until they are listed. -/
theorem writeParts_assembles (version : avro.formatVersion = metadata.formatVersion)
    (named : writer.commitUuid = uuid)
    (run : writeParts metadata avro snapshotId content store writer parts =
      .ok (stored, after, manifests)) (output : ListOutput V)
    (rest : Multiset (ManifestListEntry V)) (loose : Multiset (ManifestContent × ManifestEntry V))
    (ledger : Ledger V) :
    Assembles metadata snapshotId uuid mixes
      ⟨store, output, rest, tagged content parts.flatten + loose, ledger, writer.manifestCount⟩
      ⟨stored, output, Multiset.ofList manifests + rest, loose, ledger, after.manifestCount⟩ := by
  induction parts generalizing store writer manifests rest with
  | nil =>
    cases run
    simpa using Assembles.refl _
  | cons part parts ih =>
    simp only [writeParts, bind_eq_ok] at run
    obtain ⟨begun, begins, filled, fills, ⟨next, advanced, others⟩, tail, run⟩ := run
    injection run with same
    simp only [Prod.mk.injEq] at same
    obtain ⟨rfl, rfl, rfl⟩ := same
    rw [nextLocation, named] at begins
    have write : AssemblyStep metadata snapshotId uuid mixes _ _ :=
      .write ⟨store, output, rest, tagged content parts.flatten + loose, ledger,
        writer.manifestCount⟩ content avro part begun filled version begins fills
    have later := ih (show writer.advance.commitUuid = uuid from named) tail (filled.manifest ::ₘ rest)
    simpa [tagged_append, add_assoc, ManifestWriter.finish, ← Multiset.cons_coe] using
      write.assembles.trans later

omit [PartitionValue V] in
theorem listAll_keeps (run : manifests.foldlM appendNewManifest writer = .ok after) :
    after = { writer with output := after.output } :=
  foldlM_relation (fun before after => after = { before with output := after.output })
    (fun _ => rfl) (fun a b c one two => by rw [two, one])
    (fun row _ a b stepped => by
      obtain ⟨output, -, rfl⟩ := appendNewManifest_eq_ok.mp stepped
      rfl) run

/-- Listing rows that are held. -/
theorem listAll_assembles (run : manifests.foldlM appendNewManifest writer = .ok after)
    (store : Store V) (rest : Multiset (ManifestListEntry V))
    (loose : Multiset (ManifestContent × ManifestEntry V)) (ledger : Ledger V) (count : Nat) :
    Assembles metadata snapshotId uuid mixes
      ⟨store, writer.output, Multiset.ofList manifests + rest, loose, ledger, count⟩
      ⟨store, after.output, rest, loose, ledger, count⟩ := by
  induction manifests generalizing writer with
  | nil =>
    cases foldlM_nil_eq_ok.mp run
    simpa using Assembles.refl _
  | cons row manifests ih =>
    obtain ⟨middle, first, others⟩ := foldlM_cons_eq_ok.mp run
    obtain ⟨output, appended, rfl⟩ := appendNewManifest_eq_ok.mp first
    have list : AssemblyStep metadata snapshotId uuid mixes _ _ :=
      .list ⟨store, writer.output, Multiset.ofList manifests + rest, loose, ledger, count⟩ row
        output appended
    simpa [← Multiset.cons_coe] using list.assembles.trans (ih others)

theorem splitSource_unfiltered {stats : FilteredManifestStats V} {existing : List (ManifestEntry V)}
    (run : splitSource store selected none = .ok (stats, existing)) :
    stats.filteredEntries = [] := by
  cases selected with
  | none =>
    cases run
    rfl
  | some row =>
    simp only [splitSource, bind_eq_ok] at run
    obtain ⟨file, -, entries, -, run⟩ := run
    injection run with same
    suffices kept : ∀ (entries : List (ManifestEntry V))
        (state : FilteredManifestStats V × List (ManifestEntry V)),
        (entries.foldl (splitResolve row none) state).1 = state.1 by
      rw [← show _ = stats from congrArg Prod.fst same, kept]
      rfl
    intro entries
    induction entries with
    | nil => exact fun state => rfl
    | cons entry entries ih =>
      intro state
      rw [List.foldl_cons, ih, splitResolve]
      split <;> simp

/-- Writing entries and those of the selected manifest to several manifests. -/
theorem appendMultipleFiltered_fills {nSplits : Nat}
    (run : writer.appendMultipleFiltered metadata store entries snapshotId nSplits filter content =
      .ok (stored, after, stats)) (ready : writer.Ready metadata mixes) :
    Fills metadata snapshotId mixes filter content entries (leftOvers stats) (store, writer)
      (stored, after) := by
  simp only [appendMultipleFiltered, bind_eq_ok] at run
  obtain ⟨fields, -, avro, schema, bounds, -, ⟨removed, existing⟩, source, parts, splits,
    ⟨written, advanced, manifests⟩, writes, listed, lists, run⟩ := run
  injection run with same
  simp only [Prod.mk.injEq] at same
  obtain ⟨rfl, rfl, rfl⟩ := same
  have replaced : leftOvers (filter.map fun _ => removed) = removed.filteredEntries := by
    cases filter with
    | none => exact (splitSource_unfiltered source).symm
    | some paths => rfl
  have whole : tagged content parts.flatten = tagged content entries + tagged content existing := by
    rw [tagged_perm (splitDatafiles_perm splits), tagged_append]
  obtain ⟨named, outputs, counts⟩ := writer.takeSelected_keeps content
  have kept := writeParts_keeps writes
  have listedKept := listAll_keeps lists
  dsimp only at kept listedKept
  rw [kept] at listedKept
  refine ⟨?_, fun loose ledger => ?_⟩
  · rw [listedKept]
    exact ⟨named, fun other => by cases other <;> rfl, by cases content <;> rfl⟩
  have dissolves : Assembles metadata snapshotId writer.commitUuid mixes _ _ := splitSource_assembles
    ⟨store, writer.output, (writer.takeSelected content).held, tagged content entries + loose, ledger,
      writer.manifestCount⟩
    source (ready.agree content) (ready.versioned content)
  have fills : Assembles metadata snapshotId writer.commitUuid mixes _ _ :=
    writeParts_assembles (entrySchema_version schema) named writes writer.output
      (writer.takeSelected content).held
      (tagged content (leftOvers (filter.map fun _ => removed)) + loose)
      (ledgerAfter ledger (writer.selected content) filter)
  have listing : Assembles metadata snapshotId writer.commitUuid mixes _ _ :=
    listAll_assembles lists written (writer.takeSelected content).held
      (tagged content (leftOvers (filter.map fun _ => removed)) + loose)
      (ledgerAfter ledger (writer.selected content) filter) advanced.manifestCount
  dsimp only at listing dissolves
  rw [kept, outputs] at listing
  rw [whole, replaced, add_assoc, counts] at fills
  rw [replaced] at listing ⊢
  have finish : listed.assembly written 0 (tagged content removed.filteredEntries + loose)
      (ledgerAfter ledger (writer.selected content) filter) =
      ⟨written, listed.output, (writer.takeSelected content).held,
        tagged content removed.filteredEntries + loose,
        ledgerAfter ledger (writer.selected content) filter, advanced.manifestCount⟩ := by
    rw [assembly, add_zero, listedKept]
    rfl
  dsimp only
  rw [writer.assembly_eq content, finish]
  refine (dissolves.trans ?_).trans (fills.trans listing)
  have order : tagged content existing + (tagged content removed.filteredEntries +
      (tagged content entries + loose)) = tagged content entries + (tagged content existing +
        (tagged content removed.filteredEntries + loose)) := by abel
  rw [order]
  exact .refl _

theorem appendMultipleFiltered_unselected {nSplits : Nat}
    (run : writer.appendMultipleFiltered metadata store entries snapshotId nSplits filter content =
      .ok (stored, after, stats)) (unselected : writer.selected content = none) :
    leftOvers stats = [] := by
  simp only [appendMultipleFiltered, unselected, splitSource, bind_eq_ok] at run
  obtain ⟨fields, -, avro, -, bounds, -, ⟨removed, existing⟩, source, parts, -,
    ⟨written, advanced, manifests⟩, -, listed, -, run⟩ := run
  cases source
  injection run with same
  simp only [Prod.mk.injEq] at same
  rw [← same.2.2]
  cases filter <;> rfl

theorem appendMultiple_advances {nSplits : Nat}
    (run : writer.appendMultiple metadata store entries snapshotId nSplits content =
      .ok (stored, after)) (ready : writer.Ready metadata mixes) :
    Advances metadata snapshotId mixes (tagged content entries) (store, writer) (stored, after) := by
  simp only [appendMultiple, bind_eq_ok] at run
  obtain ⟨⟨next, listed, stats⟩, appends, run⟩ := run
  injection run with same
  obtain ⟨rfl, rfl⟩ := Prod.mk.inj same
  have filled := appendMultipleFiltered_fills appends ready
  have unfiltered : stats = none := by
    simp only [appendMultipleFiltered, bind_eq_ok] at appends
    obtain ⟨_, -, _, -, _, -, _, -, _, -, _, -, _, -, appends⟩ := appends
    cases appends
    rfl
  subst unfiltered
  exact filled.advances ready

/-! ### Filtering -/

/-- A manifest with the paths to be removed from it. -/
def removal (filesToFilter : HashMap String (List String)) (row : ManifestListEntry V) :
    ManifestListEntry V × List String :=
  (row, (filesToFilter.lookup row.manifestPath).getD [])

/-- The live files of a manifest in the store. -/
def filesAt (metadata : TableMetadata) (store : Store V) (row : ManifestListEntry V) :
    Multiset (DataFile V) :=
  liveFiles metadata.formatVersion (store.entriesAt row.manifestPath)

/-- Nothing is counted in a manifest once the paths have been removed from it. -/
def Vanishing (metadata : TableMetadata) (store : Store V)
    (removal : ManifestListEntry V × List String) : Prop :=
  ManifestWriter.Vanishes (removal.1.partitionSpecId ≠ metadata.defaultSpecId) removal.2
    (filesAt metadata store removal.1)

instance (metadata : TableMetadata) (store : Store V) :
    DecidablePred (Vanishing metadata store) := fun _ =>
  inferInstanceAs (Decidable (ManifestWriter.Vanishes _ _ _))

/-- A tombstone of a file removed from a manifest of the current spec. -/
def Leaves (metadata : TableMetadata) (store : Store V)
    (removal : ManifestListEntry V × List String) (entry : ManifestEntry V) : Prop :=
  entry.live = false ∧ removal.1.partitionSpecId = metadata.defaultSpecId ∧
    entry.dataFile.identity metadata.formatVersion ∈
      (filesAt metadata store removal.1).filter (named removal.2)

/-- Removing files from one manifest. -/
theorem filterManifest_assembles (a : Assembly V) {filtered : ManifestListEntry V}
    {stats : FilteredManifestStats V} (version : current.formatVersion = metadata.formatVersion)
    (run : filterManifest metadata current filesToFilter snapshotId a.store
      (newManifestLocation metadata.location uuid a.count) row = .ok (stored, filtered, stats)) :
    Assembles metadata snapshotId uuid mixes { a with held := row ::ₘ a.held }
        ⟨stored, a.output, Multiset.ofList ([filtered].filter hasFiles) + a.held,
          tagged row.content stats.filteredEntries + a.loose,
          a.ledger.remove [removal filesToFilter row] (Vanishing metadata a.store), a.count + 1⟩ ∧
      filtered.manifestPath = newManifestLocation metadata.location uuid a.count ∧
      (∃ file, stored = a.store.putManifest filtered.manifestPath file) ∧
      ∀ entry ∈ stats.filteredEntries,
        Leaves metadata a.store (removal filesToFilter row) entry := by
  simp only [filterManifest] at run
  split at run
  · cases run
  rename_i paths found
  simp only [bind_eq_ok] at run
  obtain ⟨file, fetched, avro, schema, entries, read, ⟨begun, removed⟩, filters, run⟩ := run
  injection run with same
  simp only [Prod.mk.injEq] at same
  obtain ⟨rfl, rfl, rfl⟩ := same
  have avroVersion : avro.formatVersion = metadata.formatVersion := by
    simp only [filterEntrySchema] at schema
    split at schema
    · cases schema
      exact version
    · obtain ⟨fields, -, schema⟩ := bind_eq_ok.mp schema
      exact entrySchema_version schema
  have same : removal filesToFilter row = (row, paths) := by simp [removal, found]
  have source : filesAt metadata a.store row = liveFiles metadata.formatVersion entries := by
    rw [filesAt, Store.entriesAt_of_getManifest fetched,
      liveFiles_congr (ManifestFile.read_sameFile read metadata.formatVersion)]
  obtain ⟨removes, vanishes⟩ := ManifestWriter.fromExistingWithFilter_files filters
  have path : begun.manifest.manifestPath = newManifestLocation metadata.location uuid a.count := by
    obtain ⟨context, resolved, of, -, result⟩ := ManifestWriter.fromExistingWithFilter_spec filters
    obtain ⟨partitions, state, same, -⟩ := result.row
    rw [same, of.row]
    rfl
  refine ⟨?_, path, ⟨begun.file, rfl⟩, ?_⟩
  · have vanishing : Vanishing metadata a.store (removal filesToFilter row) ↔
        hasFiles begun.manifest = false := by
      rw [vanishes, same, Vanishing, ← source]
    cases kept : hasFiles begun.manifest with
    | true =>
      have filter : AssemblyStep metadata snapshotId uuid mixes _ _ :=
        .filter a row file paths _ avro entries [] begun begun removed (fun _ => rfl) avroVersion
          fetched read filters (foldlM_nil_eq_ok.mpr rfl)
      have stays : ¬ Vanishing metadata a.store (row, paths) := by
        rw [← same, vanishing, kept]
        exact Bool.noConfusion
      rw [same, Ledger.remove_of_not stays]
      simpa [Assembly.wrote, ManifestWriter.finish, kept] using filter.assembles
    | false =>
      have vanish : AssemblyStep metadata snapshotId uuid mixes _ _ :=
        .vanish a row file paths _ avro entries begun removed avroVersion fetched read filters kept
      have goes : Vanishing metadata a.store (row, paths) := same ▸ vanishing.mpr kept
      rw [same, Ledger.remove_of goes]
      simpa [ManifestWriter.finish, kept] using vanish.assembles
  · intro entry member
    obtain ⟨dead, current, present⟩ := removes.mem_left member
    refine ⟨dead, not_not.mp current, ?_⟩
    rw [same]
    exact source ▸ present

/-- The tombstones of filtered manifests, with the contents of the manifests. -/
def tombstones (manifests : List (ManifestListEntry V))
    (filtered : List (ManifestListEntry V × FilteredManifestStats V)) :
    Multiset (ManifestContent × ManifestEntry V) :=
  (List.zipWith (fun row result => tagged row.content result.2.filteredEntries)
    manifests filtered).sum

omit [PartitionValue V] in
theorem filesAt_putManifest {path : String} {file : ManifestFile V}
    (differ : row.manifestPath ≠ path) :
    filesAt metadata (store.putManifest path file) row = filesAt metadata store row := by
  rw [filesAt, Store.entriesAt, Store.putManifest_manifest_of_ne store file differ]
  rfl

theorem filterManifests_keeps
    (run : filterManifests metadata current filesToFilter snapshotId store writer manifests =
      .ok (stored, after, filtered)) :
    after = { writer with manifestCount := after.manifestCount } := by
  induction manifests generalizing store writer filtered with
  | nil =>
    cases run
    rfl
  | cons row manifests ih =>
    simp only [filterManifests, bind_eq_ok] at run
    obtain ⟨⟨next, listed, stats⟩, -, ⟨last, advanced, others⟩, tail, run⟩ := run
    injection run with same
    simp only [Prod.mk.injEq] at same
    obtain ⟨rfl, rfl, rfl⟩ := same
    have later := ih tail
    exact later

/-- Removing files from all manifests that are set aside. -/
theorem filterManifests_assembles (version : current.formatVersion = metadata.formatVersion)
    (same : writer.commitUuid = uuid)
    (run : filterManifests metadata current filesToFilter snapshotId store writer manifests =
      .ok (stored, after, filtered)) (source : Store V)
    (unchanged : ∀ row ∈ manifests, filesAt metadata store row = filesAt metadata source row)
    (fresh : ∀ row ∈ manifests, ∀ i, row.manifestPath ≠ newManifestLocation metadata.location uuid i)
    (output : ListOutput V) (rest : Multiset (ManifestListEntry V))
    (loose : Multiset (ManifestContent × ManifestEntry V)) (ledger : Ledger V) :
    Assembles metadata snapshotId uuid mixes
        ⟨store, output, Multiset.ofList manifests + rest, loose, ledger, writer.manifestCount⟩
        ⟨stored, output, Multiset.ofList ((filtered.map (·.1)).filter hasFiles) + rest,
          tombstones manifests filtered + loose,
          ledger.remove (manifests.map (removal filesToFilter)) (Vanishing metadata source),
          after.manifestCount⟩ ∧
      List.Forall₂ (fun row result => ∀ entry ∈ result.2.filteredEntries,
        Leaves metadata source (removal filesToFilter row) entry) manifests filtered := by
  induction manifests generalizing store writer filtered rest loose ledger with
  | nil =>
    cases run
    refine ⟨?_, .nil⟩
    simpa [tombstones, Ledger.remove_nil] using Assembles.refl _
  | cons row manifests ih =>
    simp only [filterManifests, bind_eq_ok] at run
    obtain ⟨⟨next, listed, stats⟩, first, ⟨last, advanced, others⟩, tail, run⟩ := run
    injection run with same'
    simp only [Prod.mk.injEq] at same'
    obtain ⟨rfl, rfl, rfl⟩ := same'
    obtain ⟨here, unchanged⟩ := List.forall_mem_cons.mp unchanged
    have freshRest := (List.forall_mem_cons.mp fresh).2
    rw [nextLocation, same] at first
    obtain ⟨one, path, ⟨file, rfl⟩, leaves⟩ := filterManifest_assembles
      ⟨store, output, Multiset.ofList manifests + rest, loose, ledger, writer.manifestCount⟩
      version first
    dsimp only at one leaves
    have kept : ∀ r ∈ manifests,
        filesAt metadata (store.putManifest listed.manifestPath file) r =
          filesAt metadata source r := by
      intro r member
      rw [filesAt_putManifest (path ▸ freshRest r member _), unchanged r member]
    obtain ⟨more, leavesRest⟩ := ih (show writer.advance.commitUuid = uuid from same) tail kept
      freshRest (Multiset.ofList ([listed].filter hasFiles) + rest)
      (tagged row.content stats.filteredEntries + loose)
      (ledger.remove [removal filesToFilter row] (Vanishing metadata source))
    have ledgers : ledger.remove [removal filesToFilter row] (Vanishing metadata store) =
        ledger.remove [removal filesToFilter row] (Vanishing metadata source) := by
      refine Ledger.remove_congr ledger fun removed member => ?_
      obtain rfl := List.mem_singleton.mp member
      rw [Vanishing, Vanishing, show (removal filesToFilter row).1 = row from rfl, here]
    refine ⟨?_, .cons (fun entry member => ?_) leavesRest⟩
    · rw [ledgers] at one
      have order : Multiset.ofList ([listed].filter hasFiles) + (Multiset.ofList manifests + rest) =
          Multiset.ofList manifests + (Multiset.ofList ([listed].filter hasFiles) + rest) :=
        add_left_comm _ _ _
      have held : Multiset.ofList ((((listed, stats) :: others).map (·.1)).filter hasFiles) =
          Multiset.ofList ((others.map (·.1)).filter hasFiles) +
            Multiset.ofList ([listed].filter hasFiles) := by
        rw [List.map_cons, ← List.singleton_append, List.filter_append, ← Multiset.coe_add,
          add_comm]
      have left : tombstones (row :: manifests) ((listed, stats) :: others) =
          tombstones manifests others + tagged row.content stats.filteredEntries := by
        rw [tombstones, List.zipWith_cons_cons, List.sum_cons, add_comm]
        rfl
      rw [held, left, List.map_cons, Ledger.remove_cons, add_assoc, add_assoc,
        ← Multiset.cons_coe, Multiset.cons_add]
      rw [order] at one
      exact one.trans more
    · obtain ⟨dead, current, present⟩ := leaves entry member
      exact ⟨dead, current, here ▸ present⟩

omit [PartitionValue V] in
/-- Listing filtered manifests lists those with files, and collects all tombstones. -/
theorem listFiltered_fold {before stats : FilteredManifestStats V}
    (run : filtered.foldlM listFiltered (writer, before) = .ok (after, stats)) :
    ((filtered.map (·.1)).filter hasFiles).foldlM appendNewManifest writer = .ok after ∧
      stats.filteredEntries = before.filteredEntries ++ filtered.flatMap (·.2.filteredEntries) := by
  induction filtered generalizing writer before with
  | nil =>
    cases foldlM_nil_eq_ok.mp run
    exact ⟨rfl, by simp⟩
  | cons first filtered ih =>
    obtain ⟨⟨middle, counted⟩, listed, rest⟩ := foldlM_cons_eq_ok.mp run
    obtain ⟨lists, entries⟩ := ih rest
    cases kept : hasFiles first.1 with
    | true =>
      simp only [listFiltered, kept, if_true, bind_eq_ok] at listed
      obtain ⟨next, listed, same⟩ := listed
      injection same with same
      obtain ⟨rfl, rfl⟩ := Prod.mk.inj same
      rw [List.map_cons, List.filter_cons_of_pos kept]
      exact ⟨foldlM_cons_eq_ok.mpr ⟨next, listed, lists⟩,
        by simp [entries, FilteredManifestStats.append]⟩
    | false =>
      simp only [listFiltered, kept, Bool.false_eq_true, if_false, bind_eq_ok] at listed
      obtain ⟨next, same, listed⟩ := listed
      cases same
      cases listed
      rw [List.map_cons, List.filter_cons_of_neg (by simp [kept])]
      exact ⟨lists, by simp [entries, FilteredManifestStats.append]⟩

/-- What a list writer keeps when manifests that are not selected are filtered. -/
structure Resumes (before after : ManifestListWriter V) : Prop where
  uuid : after.commitUuid = before.commitUuid
  selected : ∀ content, after.selected content = before.selected content
  existing : after.nExistingFiles = before.nExistingFiles

omit [PartitionValue V] in
theorem Ready.resumes {before : ManifestListWriter V} (ready : before.Ready metadata mixes)
    (kept : Resumes before after) : after.Ready metadata mixes := by
  constructor
  · intro content row chosen
    rw [kept.selected] at chosen
    exact ready.agree content row chosen
  · intro content row chosen
    rw [kept.selected] at chosen
    exact ready.versioned content row chosen

/-- The tombstones of manifests files have been removed from. -/
structure LeftBy (metadata : TableMetadata) (store : Store V)
    (filesToFilter : HashMap String (List String)) (manifests : List (ManifestListEntry V))
    (left : Multiset (ManifestContent × ManifestEntry V)) (entries : List (ManifestEntry V)) :
    Prop where
  entries : left.map (·.2) = Multiset.ofList entries
  source : ∀ x ∈ left, ∃ row ∈ manifests, x.1 = row.content ∧
    Leaves metadata store (removal filesToFilter row) x.2

omit [PartitionValue V] in
theorem tombstones_leftBy
    (leaves : List.Forall₂ (fun row result => ∀ entry ∈ result.2.filteredEntries,
      Leaves metadata store (removal filesToFilter row) entry) manifests filtered) :
    LeftBy metadata store filesToFilter manifests (tombstones manifests filtered)
      (filtered.flatMap (·.2.filteredEntries)) := by
  induction leaves with
  | nil => exact ⟨rfl, fun x member => absurd member (Multiset.notMem_zero _)⟩
  | @cons row result manifests filtered here _ ih =>
    have first : tombstones (row :: manifests) (result :: filtered) =
        tagged row.content result.2.filteredEntries + tombstones manifests filtered := by
      rw [tombstones, List.zipWith_cons_cons, List.sum_cons]
      rfl
    constructor
    · rw [first, Multiset.map_add, ih.entries, List.flatMap_cons, ← Multiset.coe_add]
      simp [tagged]
    · intro x member
      rw [first] at member
      rcases Multiset.mem_add.mp member with new | old
      · obtain ⟨entry, within, rfl⟩ := List.mem_map.mp (Multiset.mem_coe.mp new)
        exact ⟨row, List.mem_cons_self, rfl, here entry within⟩
      · obtain ⟨source, within, same⟩ := ih.source x old
        exact ⟨source, List.mem_cons_of_mem _ within, same⟩

/-- Filtering the manifests that are set aside and listing what is left of them. -/
theorem appendAndFilter_assembles {stats : FilteredManifestStats V}
    (run : writer.appendAndFilter metadata store manifests filesToFilter snapshotId =
      .ok (stored, after, stats)) (fresh : ∀ row ∈ manifests, ∀ i,
      row.manifestPath ≠ newManifestLocation metadata.location writer.commitUuid i)
    (rest : Multiset (ManifestListEntry V)) (loose : Multiset (ManifestContent × ManifestEntry V))
    (ledger : Ledger V) :
    ∃ left, LeftBy metadata store filesToFilter manifests left stats.filteredEntries ∧
      Assembles metadata snapshotId writer.commitUuid mixes
        (writer.assembly store (Multiset.ofList manifests + rest) loose ledger)
        (after.assembly stored rest (left + loose)
          (ledger.remove (manifests.map (removal filesToFilter)) (Vanishing metadata store))) ∧
      Resumes writer after := by
  simp only [appendAndFilter, bind_eq_ok] at run
  obtain ⟨current, schema, ⟨written, advanced, filtered⟩, filters, ⟨listed, counted⟩, lists, run⟩ := run
  injection run with same
  simp only [Prod.mk.injEq] at same
  obtain ⟨rfl, rfl, rfl⟩ := same
  have kept := filterManifests_keeps filters
  obtain ⟨lists, entries⟩ := listFiltered_fold lists
  have listedKept := listAll_keeps lists
  obtain ⟨removes, leaves⟩ : Assembles metadata snapshotId writer.commitUuid mixes _ _ ∧ _ :=
    filterManifests_assembles (currentEntrySchema_version schema) rfl filters store
      (fun _ _ => rfl) fresh writer.output (writer.held + rest) loose ledger
  have listing : Assembles metadata snapshotId writer.commitUuid mixes _ _ :=
    listAll_assembles lists written (writer.held + rest) (tombstones manifests filtered + loose)
      (ledger.remove (manifests.map (removal filesToFilter)) (Vanishing metadata store))
      advanced.manifestCount
  dsimp only at kept listing listedKept
  rw [kept] at listing listedKept
  refine ⟨tombstones manifests filtered, ?_, ?_, ?_⟩
  · rw [entries]
    exact tombstones_leftBy leaves
  · have start : writer.assembly store (Multiset.ofList manifests + rest) loose ledger =
        ⟨store, writer.output, Multiset.ofList manifests + (writer.held + rest), loose, ledger,
          writer.manifestCount⟩ := by
      rw [assembly, add_left_comm]
    have finish : listed.assembly written rest (tombstones manifests filtered + loose)
          (ledger.remove (manifests.map (removal filesToFilter)) (Vanishing metadata store)) =
        ⟨written, listed.output, writer.held + rest, tombstones manifests filtered + loose,
          ledger.remove (manifests.map (removal filesToFilter)) (Vanishing metadata store),
          advanced.manifestCount⟩ := by
      rw [listedKept]
      rfl
    rw [start, finish]
    exact removes.trans listing
  · rw [listedKept]
    exact ⟨rfl, fun content => by cases content <;> rfl, rfl⟩

end ManifestListWriter

end IcebergRust

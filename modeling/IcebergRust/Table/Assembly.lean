import IcebergRust.Table.ManifestListWriter
import IcebergRust.Table.LiveFiles
import Mathlib.Algebra.BigOperators.Group.Multiset.Basic
import Mathlib.Logic.Relation
import Mathlib.Tactic.Abel

/-!
# Assembling a manifest list

An abstract machine for what all data operations do with the rows of the old manifest
list and with new entries: rows are listed, rewritten, filtered, taken apart or lost,
and entries are written to new manifests.

* `Assembly` is a state of it: the rows that are neither listed nor given up, the entries
  that are not written yet, and a ledger of what has been filtered, displaced and
  discarded.
* `AssemblyStep` is one step.  An invariant of a list under construction is proved by one
  case for each of its constructors.
* `Assembles.invariant` is the induction over runs; that the functions of the list writer
  are runs is shown in the modules that follow.
-/

namespace IcebergRust

open Fallible

variable {V : Type}

/-- What has happened to rows of the old list that are not listed unchanged. -/
structure Ledger (V : Type) where
  /-- Rows the selection has lost. -/
  displaced : Multiset (ManifestListEntry V)
  /-- Filtered rows with the paths removed from them. -/
  filtered : Multiset (ManifestListEntry V × List String)
  /-- Those of the filtered rows that are not listed again. -/
  discarded : Multiset (ManifestListEntry V × List String)

/-- A list under construction. -/
structure Assembly (V : Type) where
  store : Store V
  output : ListOutput V
  /-- Rows that are neither listed nor given up. -/
  held : Multiset (ManifestListEntry V)
  /-- Entries to be written, with the content of the manifest they come from or are meant for. -/
  loose : Multiset (ManifestContent × ManifestEntry V)
  ledger : Ledger V
  /-- The number of manifests written. -/
  count : Nat

/-- Entries with the content they belong to. -/
def tagged (content : ManifestContent) (entries : List (ManifestEntry V)) :
    Multiset (ManifestContent × ManifestEntry V) :=
  Multiset.ofList (entries.map (content, ·))

@[simp] theorem tagged_nil (content : ManifestContent) :
    tagged content ([] : List (ManifestEntry V)) = 0 := rfl

theorem tagged_cons (content : ManifestContent) (entry : ManifestEntry V)
    (entries : List (ManifestEntry V)) :
    tagged content (entry :: entries) = (content, entry) ::ₘ tagged content entries := rfl

theorem tagged_append (content : ManifestContent) (first second : List (ManifestEntry V)) :
    tagged content (first ++ second) = tagged content first + tagged content second := by
  simp [tagged]

theorem tagged_perm {content : ManifestContent} {first second : List (ManifestEntry V)}
    (perm : first.Perm second) : tagged content first = tagged content second :=
  Multiset.coe_eq_coe.mpr (perm.map _)

/-- A row or nothing. -/
def optional {α : Type} (o : Option α) : Multiset α := Multiset.ofList o.toList

@[simp] theorem optional_none {α : Type} : optional (none : Option α) = 0 := rfl

@[simp] theorem optional_some {α : Type} (a : α) : optional (some a) = {a} := rfl

namespace Ledger

def empty : Ledger V := ⟨0, 0, 0⟩

def displace (ledger : Ledger V) (row : ManifestListEntry V) : Ledger V :=
  { ledger with displaced := row ::ₘ ledger.displaced }

def discard (ledger : Ledger V) (row : ManifestListEntry V) (paths : List String) : Ledger V :=
  { ledger with discarded := (row, paths) ::ₘ ledger.discarded }

/-- Recording the paths a row is filtered by, if it is. -/
def filter (ledger : Ledger V) (row : ManifestListEntry V) : Option (List String) → Ledger V
  | none => ledger
  | some paths => { ledger with filtered := (row, paths) ::ₘ ledger.filtered }

/-- Recording files removed from several manifests, some of which vanish. -/
def remove (ledger : Ledger V) (removals : List (ManifestListEntry V × List String))
    (vanish : ManifestListEntry V × List String → Prop) [DecidablePred vanish] : Ledger V :=
  { ledger with
    filtered := Multiset.ofList removals + ledger.filtered
    discarded := Multiset.ofList (removals.filter vanish) + ledger.discarded }

theorem remove_nil (ledger : Ledger V) (vanish : ManifestListEntry V × List String → Prop)
    [DecidablePred vanish] : ledger.remove [] vanish = ledger := by
  simp [remove]

theorem remove_cons (ledger : Ledger V) (first : ManifestListEntry V × List String)
    (rest : List (ManifestListEntry V × List String))
    (vanish : ManifestListEntry V × List String → Prop) [DecidablePred vanish] :
    ledger.remove (first :: rest) vanish = (ledger.remove [first] vanish).remove rest vanish := by
  by_cases goes : vanish first <;>
    simp [remove, goes, ← Multiset.cons_coe, Multiset.add_cons]

theorem remove_congr (ledger : Ledger V) {removals : List (ManifestListEntry V × List String)}
    {p q : ManifestListEntry V × List String → Prop} [DecidablePred p] [DecidablePred q]
    (agree : ∀ removal ∈ removals, p removal ↔ q removal) :
    ledger.remove removals p = ledger.remove removals q := by
  rw [remove, remove,
    List.filter_congr fun removal member => decide_eq_decide.mpr (agree removal member)]

theorem remove_of_not {ledger : Ledger V} {row : ManifestListEntry V} {paths : List String}
    {vanish : ManifestListEntry V × List String → Prop} [DecidablePred vanish]
    (stays : ¬ vanish (row, paths)) :
    ledger.remove [(row, paths)] vanish = ledger.filter row (some paths) := by
  simp [remove, filter, stays]

theorem remove_of {ledger : Ledger V} {row : ManifestListEntry V} {paths : List String}
    {vanish : ManifestListEntry V × List String → Prop} [DecidablePred vanish]
    (goes : vanish (row, paths)) :
    ledger.remove [(row, paths)] vanish = (ledger.filter row (some paths)).discard row paths := by
  simp [remove, filter, discard, goes]

end Ledger

variable [PartitionValue V]

/-- Storing a written manifest and holding its row. -/
def Assembly.wrote (assembly : Assembly V) (filled : ManifestWriter V) : Assembly V :=
  { assembly with
    store := assembly.store.putManifest filled.manifest.manifestPath filled.file
    held := filled.manifest ::ₘ assembly.held
    count := assembly.count + 1 }

/-- One step.  New manifests go to the locations of `uuid` in order; `mixes` says whether entries of
one content may end up in a manifest of the other.  A version 3 table adds no entries to existing
manifests. -/
inductive AssemblyStep (metadata : TableMetadata) (snapshotId : Int) (uuid : String)
    (mixes : Prop) : Assembly V → Assembly V → Prop
  /-- A row is appended to the list. -/
  | list (a : Assembly V) (row : ManifestListEntry V) (output : ListOutput V)
      (listed : appendManifest a.output row = .ok output) :
      AssemblyStep metadata snapshotId uuid mixes { a with held := row ::ₘ a.held } { a with output }
  /-- A candidate is replaced by a row without a row count, and lost. -/
  | displace (a : Assembly V) (row : ManifestListEntry V)
      (versioned : metadata.formatVersion ≠ .v3) :
      AssemblyStep metadata snapshotId uuid mixes { a with held := row ::ₘ a.held }
        { a with ledger := a.ledger.displace row }
  /-- An entry is put to the other content; in version 3 only a tombstone can be. -/
  | retag (a : Assembly V) (mixed : mixes) (source target : ManifestContent)
      (entry : ManifestEntry V) (dead : metadata.formatVersion = .v3 → entry.live = false) :
      AssemblyStep metadata snapshotId uuid mixes { a with loose := (source, entry) ::ₘ a.loose }
        { a with loose := (target, entry) ::ₘ a.loose }
  /-- The partition tuple of an entry is promoted to the current types. -/
  | promote (a : Assembly V) (content : ManifestContent) (entry : ManifestEntry V)
      (partition : Struct V) :
      AssemblyStep metadata snapshotId uuid mixes { a with loose := (content, entry) ::ₘ a.loose }
        { a with loose :=
          (content, { entry with dataFile := { entry.dataFile with partition } }) ::ₘ a.loose }
  /-- Entries are written to a new manifest. -/
  | write (a : Assembly V) (content : ManifestContent) (avro : EntrySchema)
      (entries : List (ManifestEntry V)) (begun filled : ManifestWriter V)
      (version : avro.formatVersion = metadata.formatVersion)
      (begins : ManifestWriter.new (newManifestLocation metadata.location uuid a.count) snapshotId
        avro metadata content = .ok begun)
      (fills : entries.foldlM (ManifestWriter.append metadata) begun = .ok filled) :
      AssemblyStep metadata snapshotId uuid mixes
        { a with loose := tagged content entries + a.loose } (a.wrote filled)
  /-- Entries are written with those of an existing manifest. -/
  | rewrite (a : Assembly V) (row : ManifestListEntry V) (file : ManifestFile V)
      (avro : EntrySchema) (existing entries : List (ManifestEntry V))
      (begun filled : ManifestWriter V) (versioned : metadata.formatVersion ≠ .v3)
      (version : avro.formatVersion = metadata.formatVersion)
      (fetched : a.store.getManifest row.manifestPath = .ok file)
      (read : file.read = .ok existing)
      (begins : ManifestWriter.fromExisting existing
        { row with manifestPath := newManifestLocation metadata.location uuid a.count } snapshotId
        avro metadata = .ok begun)
      (fills : entries.foldlM (ManifestWriter.append metadata) begun = .ok filled) :
      AssemblyStep metadata snapshotId uuid mixes
        { a with held := row ::ₘ a.held, loose := tagged row.content entries + a.loose }
        (a.wrote filled)
  /-- Files are removed from a manifest, and entries may be written to it. -/
  | filter (a : Assembly V) (row : ManifestListEntry V) (file : ManifestFile V)
      (paths : List String) (source : Option (Schema × PartitionSpec)) (avro : EntrySchema)
      (existing entries : List (ManifestEntry V)) (begun filled : ManifestWriter V)
      (stats : FilteredManifestStats V)
      (alone : metadata.formatVersion = .v3 → entries = [])
      (version : avro.formatVersion = metadata.formatVersion)
      (fetched : a.store.getManifest row.manifestPath = .ok file)
      (read : file.read = .ok existing)
      (begins : ManifestWriter.fromExistingWithFilter existing
        { row with manifestPath := newManifestLocation metadata.location uuid a.count } paths
        snapshotId avro metadata source = .ok (begun, stats))
      (fills : entries.foldlM (ManifestWriter.append metadata) begun = .ok filled) :
      AssemblyStep metadata snapshotId uuid mixes
        { a with held := row ::ₘ a.held, loose := tagged row.content entries + a.loose }
        { a.wrote filled with
          loose := tagged row.content stats.filteredEntries + a.loose
          ledger := a.ledger.filter row (some paths) }
  /-- Files are removed from a manifest, which then counts as empty and is not listed. -/
  | vanish (a : Assembly V) (row : ManifestListEntry V) (file : ManifestFile V)
      (paths : List String) (source : Option (Schema × PartitionSpec)) (avro : EntrySchema)
      (existing : List (ManifestEntry V)) (filtered : ManifestWriter V)
      (stats : FilteredManifestStats V)
      (version : avro.formatVersion = metadata.formatVersion)
      (fetched : a.store.getManifest row.manifestPath = .ok file)
      (read : file.read = .ok existing)
      (begins : ManifestWriter.fromExistingWithFilter existing
        { row with manifestPath := newManifestLocation metadata.location uuid a.count } paths
        snapshotId avro metadata source = .ok (filtered, stats))
      (empty : ManifestListWriter.hasFiles filtered.manifest = false) :
      AssemblyStep metadata snapshotId uuid mixes { a with held := row ::ₘ a.held }
        { a with
          store := a.store.putManifest filtered.manifest.manifestPath filtered.file
          loose := tagged row.content stats.filteredEntries + a.loose
          ledger := (a.ledger.filter row (some paths)).discard row paths
          count := a.count + 1 }
  /-- A manifest is taken apart into its live entries and the tombstones of what is removed. -/
  | dissolve (a : Assembly V) (row : ManifestListEntry V) (file : ManifestFile V)
      (paths : Option (List String)) (existing : List (ManifestEntry V))
      (versioned : metadata.formatVersion ≠ .v3)
      (fetched : a.store.getManifest row.manifestPath = .ok file)
      (read : file.read = .ok existing) :
      AssemblyStep metadata snapshotId uuid mixes { a with held := row ::ₘ a.held }
        { a with
          loose := tagged row.content
            (existing.foldl (ManifestListWriter.splitResolve row paths) (.empty, [])).2 +
            (tagged row.content (existing.foldl (ManifestListWriter.splitResolve row paths)
              (.empty, [])).1.filteredEntries + a.loose)
          ledger := a.ledger.filter row paths }

/-- Runs of the machine. -/
def Assembles (metadata : TableMetadata) (snapshotId : Int) (uuid : String) (mixes : Prop) :
    Assembly V → Assembly V → Prop :=
  Relation.ReflTransGen (AssemblyStep metadata snapshotId uuid mixes)

section Machine

variable {metadata : TableMetadata} {snapshotId : Int} {uuid : String} {mixes : Prop}

theorem Assembles.refl (a : Assembly V) : Assembles metadata snapshotId uuid mixes a a :=
  Relation.ReflTransGen.refl

theorem Assembles.trans {a b c : Assembly V} (one : Assembles metadata snapshotId uuid mixes a b)
    (two : Assembles metadata snapshotId uuid mixes b c) :
    Assembles metadata snapshotId uuid mixes a c :=
  Relation.ReflTransGen.trans one two

theorem AssemblyStep.assembles {a b : Assembly V}
    (step : AssemblyStep metadata snapshotId uuid mixes a b) :
    Assembles metadata snapshotId uuid mixes a b :=
  Relation.ReflTransGen.single step

/-- What every step keeps, every run keeps. -/
theorem Assembles.invariant {I : Assembly V → Prop}
    (keeps : ∀ a b, AssemblyStep metadata snapshotId uuid mixes a b → I a → I b) {a b : Assembly V}
    (run : Assembles metadata snapshotId uuid mixes a b) (start : I a) : I b := by
  induction run with
  | refl => exact start
  | tail _ step ih => exact keeps _ _ step ih

/-- Entries are put to another content one by one. -/
theorem assembles_retag (a : Assembly V) {source target : ManifestContent}
    (allowed : source = target ∨ mixes) (entries : List (ManifestEntry V))
    (dead : metadata.formatVersion = .v3 → ∀ entry ∈ entries, entry.live = false) :
    Assembles metadata snapshotId uuid mixes { a with loose := tagged source entries + a.loose }
      { a with loose := tagged target entries + a.loose } := by
  rcases allowed with rfl | mixed
  · exact .refl _
  · induction entries generalizing a with
    | nil => exact .refl _
    | cons entry entries ih =>
      have here : AssemblyStep metadata snapshotId uuid mixes
          { a with loose := (source, entry) ::ₘ (tagged source entries + a.loose) }
          { a with loose := (target, entry) ::ₘ (tagged source entries + a.loose) } :=
        .retag { a with loose := tagged source entries + a.loose } mixed source target entry
          fun v3 => dead v3 entry List.mem_cons_self
      have rest := ih { a with loose := (target, entry) ::ₘ a.loose }
        fun v3 other member => dead v3 other (List.mem_cons_of_mem _ member)
      simp only [tagged_cons, Multiset.cons_add, Multiset.add_cons] at here rest ⊢
      exact here.assembles.trans rest

/-- All entries are put to one content. -/
theorem assembles_gather (a : Assembly V) (target : ManifestContent)
    {left : Multiset (ManifestContent × ManifestEntry V)} {entries : List (ManifestEntry V)}
    (gathered : left.map (·.2) = Multiset.ofList entries)
    (allowed : ∀ x ∈ left, x.1 = target ∨ mixes)
    (dead : metadata.formatVersion = .v3 → ∀ x ∈ left, x.2.live = false) :
    Assembles metadata snapshotId uuid mixes { a with loose := left + a.loose }
      { a with loose := tagged target entries + a.loose } := by
  have whole : tagged target entries = left.map fun x => (target, x.2) := by
    have mapped := congrArg (Multiset.map fun entry => (target, entry)) gathered
    rw [Multiset.map_map] at mapped
    exact mapped.symm
  rw [whole]
  clear whole gathered entries
  induction left using Multiset.induction_on generalizing a with
  | empty => exact .refl _
  | cons x left ih =>
    have rest := ih { a with loose := (target, x.2) ::ₘ a.loose }
      (fun y member => allowed y (Multiset.mem_cons_of_mem member))
      fun v3 y member => dead v3 y (Multiset.mem_cons_of_mem member)
    have one : Assembles metadata snapshotId uuid mixes _ _ := assembles_retag
      { a with loose := left + a.loose } (allowed x (Multiset.mem_cons_self x left)) [x.2]
      fun v3 entry member => by
        rw [List.mem_singleton.mp member]
        exact dead v3 x (Multiset.mem_cons_self x left)
    simp only [tagged_cons, tagged_nil, Multiset.map_cons, Multiset.cons_add, Multiset.add_cons,
      zero_add] at one rest ⊢
    exact one.trans rest

/-- The partition tuples of entries are promoted. -/
theorem assembles_promote (a : Assembly V) (content : ManifestContent)
    {entries promoted : List (ManifestEntry V)}
    (promotes : List.Forall₂ (fun before after => ∃ partition,
      after = { before with dataFile := { before.dataFile with partition } }) entries promoted) :
    Assembles metadata snapshotId uuid mixes { a with loose := tagged content entries + a.loose }
      { a with loose := tagged content promoted + a.loose } := by
  induction promotes generalizing a with
  | nil => exact .refl _
  | @cons before after entries promoted here _ ih =>
    obtain ⟨partition, rfl⟩ := here
    have one : AssemblyStep metadata snapshotId uuid mixes _ _ :=
      .promote { a with loose := tagged content entries + a.loose } content before partition
    have rest := ih { a with loose :=
      (content, { before with dataFile := { before.dataFile with partition } }) ::ₘ a.loose }
    simp only [tagged_cons, Multiset.cons_add, Multiset.add_cons] at one rest ⊢
    exact one.assembles.trans rest

end Machine

end IcebergRust

import IcebergRust.Transaction.Append

/-!
# Selecting a manifest during an overwrite

`iceberg-rust/src/table/transaction/overwrite.rs`.  The pass has one candidate, of
whichever content, and sets aside the manifests files are to be removed from.

* `passOn` is what happens to a row that is not the candidate: it is set aside when
  it is named by the overwrite and copied to the new list otherwise.
-/

namespace IcebergRust

variable {V : Type}

/-- What has been written to the new list and what has been set aside. -/
structure OverwriteOutput (V : Type) where
  output : ListOutput V
  manifestsToOverwrite : List (ManifestListEntry V)

/-- Setting a named manifest aside and copying any other one. -/
def passOn (overwrites : List String) (state : OverwriteOutput V)
    (manifest : ManifestListEntry V) : Except Error (OverwriteOutput V) :=
  if manifest.manifestPath ∈ overwrites then
    .ok { state with manifestsToOverwrite := state.manifestsToOverwrite ++ [manifest] }
  else do
    let output ← appendManifest state.output manifest
    .ok { state with output }

structure OverwriteState (V κ : Type) where
  passed : OverwriteOutput V
  selected : Option (κ × ManifestListEntry V)
  fileCountAllEntries : Nat

/-- `OverwriteManifest`, with the list written so far. -/
structure OverwriteManifest (V : Type) where
  output : ListOutput V
  manifest : Option (ManifestListEntry V)
  fileCountAllEntries : Nat
  manifestsToOverwrite : List (ManifestListEntry V)

/-- One row of the selection for an overwrite. -/
def overwriteStep {κ : Type} (overwrites : List String) (allows : ManifestListEntry V → Bool)
    (keyOf : ManifestListEntry V → Except Error κ) (choose : κ → κ → Except Error Choice)
    (state : OverwriteState V κ) (manifest : ManifestListEntry V) :
    Except Error (OverwriteState V κ) :=
  let fileCountAllEntries := countFiles state.fileCountAllEntries manifest
  if allows manifest then do
    let key ← keyOf manifest
    let (passed, selected) ← offer (passOn overwrites) choose (state.passed, state.selected) key
      manifest
    .ok ⟨passed, selected, fileCountAllEntries⟩
  else do
    let passed ← passOn overwrites state.passed manifest
    .ok { state with passed, fileCountAllEntries }

/-- The pass of a selection function for overwrites. -/
def selectWithoutOverwrites {κ : Type} (keyOf : ManifestListEntry V → Except Error κ)
    (choose : κ → κ → Except Error Choice) (rows : List (ManifestListEntry V))
    (output : ListOutput V) (overwrites : List String) (metadata : TableMetadata) :
    Except Error (OverwriteManifest V) := do
  let partitionTypes ← rewritePartitionTypes metadata
  let state ← rows.foldlM
    (overwriteStep overwrites (rewriteAllows metadata partitionTypes) keyOf choose)
    ⟨⟨output, []⟩, none, 0⟩
  .ok ⟨state.passed.output, state.selected.map (·.2), state.fileCountAllEntries,
    state.passed.manifestsToOverwrite⟩

/-- `select_manifest_without_overwrites_partitioned`. -/
def selectManifestWithoutOverwritesPartitioned [PartitionValue V]
    (rows : List (ManifestListEntry V)) (output : ListOutput V) (bounding : Rectangle V)
    (overwrites : List String) (metadata : TableMetadata) : Except Error (OverwriteManifest V) :=
  selectWithoutOverwrites (expandedBounds bounding) chooseByBounds rows output overwrites metadata

/-- `select_manifest_without_overwrites_unpartitioned`. -/
def selectManifestWithoutOverwritesUnpartitioned (rows : List (ManifestListEntry V))
    (output : ListOutput V) (overwrites : List String) (metadata : TableMetadata) :
    Except Error (OverwriteManifest V) :=
  selectWithoutOverwrites (fun manifest => .ok manifest.addedRowsCount)
    (fun selected count => .ok (chooseByRows selected count)) rows output overwrites metadata

end IcebergRust

import IcebergRust.Spec.Decimal
import IcebergRust.Spec.TableMetadata

/-!
# View metadata

`view_metadata.rs` of the spec crate: the versions of a view, and the branch pointers that
live in its properties beside the single `current_version_id`.

* `T` is the storage table of a version: nothing for a plain view, an identifier for a
  materialized one.
* `GeneralViewMetadata.currentVersion` resolves a branch, or the current version where the
  branch has no pointer.
-/

namespace IcebergRust.View

inductive FormatVersion where
  | v1
deriving DecidableEq, Repr

/-- `i32::from(FormatVersion)`. -/
def FormatVersion.toInt : FormatVersion → Int
  | .v1 => 1

/-- `Operation` of `view_metadata.rs`, the kind of change a version records. -/
inductive SummaryOperation where
  | create
  | replace
deriving DecidableEq, Repr

structure Summary where
  operation : SummaryOperation
  engineName : Option String
  engineVersion : Option String
deriving DecidableEq, Repr

inductive ViewRepresentation where
  | sql (sql dialect : String)
deriving DecidableEq, Repr

def ViewRepresentation.dialect : ViewRepresentation → String
  | .sql _ dialect => dialect

structure Version (T : Type) where
  versionId : Int
  schemaId : Int
  timestampMs : Int
  summary : Summary
  representations : List ViewRepresentation
  defaultCatalog : Option String
  defaultNamespace : List String
  storageTable : T
deriving DecidableEq, Repr

structure VersionLogStruct where
  timestampMs : Int
  versionId : Int
deriving DecidableEq, Repr

structure GeneralViewMetadata (T : Type) where
  viewUuid : Uuid
  formatVersion : FormatVersion
  location : String
  currentVersionId : Int
  versions : HashMap Int (Version T)
  versionLog : List VersionLogStruct
  schemas : HashMap Int Schema
  properties : HashMap String String

/-- The prefix of the properties that are branch pointers. -/
def refPrefix : String := "ref-"

variable {T : Type}

namespace GeneralViewMetadata

variable (metadata : GeneralViewMetadata T)

/-- The version id the pointer of a branch holds, if there is one and it is a number. -/
def branchPointer (reference : String) : Option Int :=
  (metadata.properties.lookup (refPrefix ++ reference)).bind parseI64

/-- The version id a reference resolves to: a branch without a pointer is at the current one. -/
def resolvedId : Option String → Int
  | none => metadata.currentVersionId
  | some reference => (metadata.branchPointer reference).getD metadata.currentVersionId

/-- `current_version`. -/
def currentVersion (snapshotRef : Option String) : Except Error (Version T) :=
  match metadata.versions.lookup (metadata.resolvedId snapshotRef) with
  | some version => .ok version
  | none => .error (.invalidFormat "view metadata")

/-- `current_schema`. -/
def currentSchema (branch : Option String) : Except Error Schema := do
  let version ← metadata.currentVersion branch
  match metadata.schemas.lookup version.schemaId with
  | some schema => .ok schema
  | none => .error (.invalidFormat "view metadata")

variable {metadata} in
theorem currentVersion_eq_ok {reference : Option String} {version : Version T} :
    metadata.currentVersion reference = .ok version ↔
      metadata.versions.lookup (metadata.resolvedId reference) = some version := by
  unfold currentVersion
  cases metadata.versions.lookup (metadata.resolvedId reference) <;> simp

variable {metadata} in
/-- A branch with a pointer resolves to the version the pointer names. -/
theorem currentVersion_of_pointer {name : String} {id : Int} {version : Version T}
    (points : metadata.branchPointer name = some id) :
    metadata.currentVersion (some name) = .ok version ↔
      metadata.versions.lookup id = some version := by
  have resolved : metadata.resolvedId (some name) = id := by
    simp only [resolvedId, points, Option.getD_some]
  rw [currentVersion_eq_ok, resolved]

variable {metadata} in
/-- Branches of two metadata with the same pointer resolve alike exactly if the same is bound
under it. -/
theorem currentVersion_eq_iff {other : GeneralViewMetadata T} {name : String} {id : Int}
    (one : metadata.branchPointer name = some id) (two : other.branchPointer name = some id) :
    metadata.currentVersion (some name) = other.currentVersion (some name) ↔
      metadata.versions.lookup id = other.versions.lookup id := by
  have resolved : metadata.resolvedId (some name) = id := by
    simp only [resolvedId, one, Option.getD_some]
  have same : other.resolvedId (some name) = id := by
    simp only [resolvedId, two, Option.getD_some]
  unfold currentVersion
  rw [resolved, same]
  cases metadata.versions.lookup id <;> cases other.versions.lookup id <;> simp

end GeneralViewMetadata

end IcebergRust.View

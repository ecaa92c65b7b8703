import IcebergRust.View.Metadata

/-!
# Requirements and updates of a view commit

`iceberg-rust/src/catalog/commit.rs`: what a view transaction asserts about the current
metadata, which is its UUID at most, and what it changes.
-/

namespace IcebergRust.View

variable {T : Type}

inductive ViewUpdate (T : Type) where
  | assignUuid (uuid : String)
  | upgradeFormatVersion (formatVersion : Int)
  | addSchema (schema : Schema) (lastColumnId : Option Int)
  | setLocation (location : String)
  | setProperties (updates : HashMap String String)
  | removeProperties (removals : List String)
  | addViewVersion (viewVersion : Version T)
  | setCurrentViewVersion (viewVersionId : Int)

inductive ViewRequirement where
  | assertViewUuid (uuid : Uuid)
deriving DecidableEq, Repr

/-- `CommitView`. -/
structure CommitView (T : Type) where
  identifier : String
  requirements : List ViewRequirement
  updates : List (ViewUpdate T)

/-- `check_view_requirements`. -/
def checkViewRequirements (requirements : List ViewRequirement)
    (metadata : GeneralViewMetadata T) : Bool :=
  requirements.all fun
    | .assertViewUuid uuid => metadata.viewUuid = uuid

/-- One update of `apply_view_updates`. -/
def applyViewUpdate (metadata : GeneralViewMetadata T) :
    ViewUpdate T → Except Error (GeneralViewMetadata T)
  | .upgradeFormatVersion formatVersion =>
    if metadata.formatVersion.toInt ≠ formatVersion then
      .error (.panicked "not implemented: Upgrade of format version")
    else .ok metadata
  | .assignUuid uuid => do
    let viewUuid ← Uuid.parseStr uuid
    .ok { metadata with viewUuid }
  | .addSchema schema _ =>
    .ok { metadata with schemas := metadata.schemas.insert schema.schemaId schema }
  | .setLocation location => .ok { metadata with location }
  | .setProperties updates =>
    .ok { metadata with properties := metadata.properties.extend updates.iter }
  | .removeProperties removals =>
    .ok { metadata with
      properties := removals.foldl (fun properties key => properties.erase key)
        metadata.properties }
  | .addViewVersion viewVersion =>
    .ok { metadata with versions := metadata.versions.insert viewVersion.versionId viewVersion }
  | .setCurrentViewVersion viewVersionId =>
    .ok { metadata with currentVersionId := viewVersionId }

/-- `apply_view_updates`. -/
def applyViewUpdates (metadata : GeneralViewMetadata T) (updates : List (ViewUpdate T)) :
    Except Error (GeneralViewMetadata T) :=
  updates.foldlM applyViewUpdate metadata

end IcebergRust.View

import IcebergRust.Catalog.MetadataFile
import IcebergRust.Spec.Identifier
import IcebergRust.Transaction.Transaction
import IcebergRust.View.Commit

/-!
# Tables and views alike

`TabularMetadata`: what the catalogs store of a table, a view or a materialized view, the file it
is in, and the commits that change it.
-/

namespace IcebergRust

open View

/-- `TabularMetadata`. -/
inductive TabularMetadata where
  | table (metadata : TableMetadata)
  | view (metadata : GeneralViewMetadata (Option Unit))
  | materializedView (metadata : GeneralViewMetadata Identifier)

namespace TabularMetadata

/-- `TabularMetadataRef::location`. -/
def location : TabularMetadata → String
  | .table metadata => metadata.location
  | .view metadata => metadata.location
  | .materializedView metadata => metadata.location

/-- `TabularMetadataRef::properties`. -/
def properties : TabularMetadata → HashMap String String
  | .table metadata => metadata.properties
  | .view metadata => metadata.properties
  | .materializedView metadata => metadata.properties

/-- `TabularMetadataRef::sequence_number`. -/
def sequenceNumber : TabularMetadata → Int
  | .table metadata => metadata.lastSequenceNumber
  | .view metadata => metadata.currentVersionId
  | .materializedView metadata => metadata.currentVersionId

/-- `new_metadata_location`, with the UUID it draws. -/
def newMetadataLocation (metadata : TabularMetadata) (transactionUuid : Uuid) : String :=
  metadata.location ++ "/metadata/" ++ padZeros metadata.sequenceNumber ++ "-" ++
    transactionUuid.display ++ "." ++ metadataSuffix (metadataIsGzipped metadata.properties)

theorem carriesUuid (metadata : TabularMetadata) (transactionUuid : Uuid) :
    CarriesUuid (metadata.newMetadataLocation transactionUuid) transactionUuid :=
  ⟨_, _, rfl⟩

end TabularMetadata

/-! ### Files -/

/-- The bytes of a metadata file: JSON of the metadata, compressed or not. -/
structure TabularFile where
  gzipped : Bool
  metadata : TabularMetadata

/-- `serialize_metadata`: the name decides. -/
def serializeTabular (location : String) (metadata : TabularMetadata) : TabularFile :=
  ⟨endsWith location ".gz.metadata.json", metadata⟩

namespace TabularFile

/-- `serde_json::from_slice`: compressed bytes are no JSON. -/
def fromSlice (file : TabularFile) : Except Error TabularMetadata :=
  if file.gzipped then .error (.invalidFormat "JSON") else .ok file.metadata

/-- `parse_metadata`: the name decides. -/
def parse (location : String) (file : TabularFile) : Except Error TabularMetadata :=
  if endsWith location ".gz.metadata.json" then
    if file.gzipped then .ok file.metadata else .error (.decompress "invalid gzip header")
  else file.fromSlice

theorem fromSlice_eq_ok {file : TabularFile} {metadata : TabularMetadata} :
    file.fromSlice = .ok metadata ↔ file.gzipped = false ∧ file.metadata = metadata := by
  unfold fromSlice
  cases file.gzipped <;> simp

theorem metadata_of_parse {file : TabularFile} {location : String} {metadata : TabularMetadata}
    (read : file.parse location = .ok metadata) : file.metadata = metadata := by
  unfold parse at read
  split at read
  · split at read
    · exact Except.ok.inj read
    · cases read
  · exact (fromSlice_eq_ok.mp read).2

end TabularFile

/-- Metadata and the location it is stored at. -/
structure TabularVersion where
  location : String
  metadata : TabularMetadata

/-- The file of a version. -/
def TabularVersion.file (version : TabularVersion) : TabularFile :=
  serializeTabular version.location version.metadata

/-! ### Commits -/

/-- What `update_table`, `update_view` and `update_materialized_view` are called with. -/
inductive TabularCommit where
  | table (commit : TableTransaction.CommitTable) (now : Int)
  | view (commit : CommitView (Option Unit))
  | materializedView (commit : CommitView Identifier)

/-- The metadata of a commit, from the metadata in the cache. -/
def TabularCommit.apply : TabularCommit → TabularMetadata → Except Error TabularMetadata
  | .table commit now, .table metadata =>
    if checkTableRequirements commit.requirements metadata then
      (applyTableUpdates metadata commit.updates now).map .table
    else .error (.invalidFormat "Table requirements not valid")
  | .table _ _, _ => .error (.invalidFormat "Table update on entity that is not a table")
  | .view commit, .view metadata =>
    if checkViewRequirements commit.requirements metadata then
      (applyViewUpdates metadata commit.updates).map .view
    else .error (.invalidFormat "View requirements not valid")
  | .view _, _ => .error (.invalidFormat "View update on entity that is not a view")
  | .materializedView commit, .materializedView metadata =>
    if checkViewRequirements commit.requirements metadata then
      (applyViewUpdates metadata commit.updates).map .materializedView
    else .error (.invalidFormat "Materialized view requirements not valid")
  | .materializedView _, _ =>
    .error (.invalidFormat "Materialized view update on entity that is not a materialized view")

end IcebergRust

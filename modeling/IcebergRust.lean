import IcebergRust.Catalog.Schemas
import IcebergRust.Catalog.References
import IcebergRust.Catalog.Sequences
import IcebergRust.Catalog.Changes
import IcebergRust.Catalog.ManifestCache
import IcebergRust.Catalog.Integrity
import IcebergRust.Catalog.SnapshotLog
import IcebergRust.Catalog.Marks
import IcebergRust.Catalog.Stored
import IcebergRust.Catalog.Created
import IcebergRust.Catalog.Lineage
import IcebergRust.Catalog.SqlCommits
import IcebergRust.Catalog.FileCommits
import IcebergRust.Table.PartitionTuple
import IcebergRust.Table.Scan
import IcebergRust.Transaction.Assembled
import IcebergRust.Transaction.Batching
import IcebergRust.Transaction.Conserved
import IcebergRust.View.Commits
import IcebergRust.MaterializedView.ForkNode
import IcebergRust.MaterializedView.PosDelta
import IcebergRust.MaterializedView.Tiling
import IcebergRust.FileFormat.Bounds
import IcebergRust.FileFormat.Inference
import IcebergRust.Catalog.Loadable
import IcebergRust.Catalog.NamespaceMap
import IcebergRust.Catalog.Renames
import IcebergRust.Table.Counts
import IcebergRust.Table.PartitionBounds
import IcebergRust.DataFusion.DeleteGroups
import IcebergRust.DataFusion.DeletionVectorFilter
import IcebergRust.DataFusion.Demuxer
import IcebergRust.DataFusion.Provenance
import IcebergRust.DataFusion.ScanRows
import IcebergRust.DataFusion.TableScan
import IcebergRust.Spec.ManifestListDecoder
import IcebergRust.Spec.Coherence
import IcebergRust.Table.PromotedBounds
import IcebergRust.Table.SnapshotBounds
import IcebergRust.Arrow.TransformLaw
import IcebergRust.Arrow.PartitionPaths
import IcebergRust.Arrow.WriteRuns
import IcebergRust.Transaction.Separation
import IcebergRust.Transaction.Expiry
import IcebergRust.Spec.DeletionVector
import IcebergRust.Spec.FieldPath
import IcebergRust.Spec.TransformText
import IcebergRust.Spec.TypeJson
import IcebergRust.Spec.MinimalBytes
import IcebergRust.Spec.PuffinRoundTrip
import IcebergRust.DataFusion.ColumnsById
import IcebergRust.Table.AncestorWalk
import IcebergRust.DataFusion.ViewDefinition
import IcebergRust.Catalog.RestCatalog
import IcebergRust.Catalog.MaterializedViews
import IcebergRust.DataFusion.Mirror
import IcebergRust.DataFusion.DataCache
import IcebergRust.Arrow.Read
import IcebergRust.DataFusion.ViewSchema

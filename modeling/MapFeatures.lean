import MapFeatures.Main
import MapFeatures.Store.Guarded
import MapFeatures.Proofs.Classify.Relations
import MapFeatures.Proofs.Ingest.BlockOrder
import MapFeatures.Proofs.Ingest.Buffer
import MapFeatures.Proofs.Ingest.Filters
import MapFeatures.Proofs.Ingest.MemberWays
import MapFeatures.Proofs.Ingest.Metadata
import MapFeatures.Proofs.Ingest.RelationPass
import MapFeatures.Proofs.ReferenceLayers
import MapFeatures.Proofs.Ring.AnyOrder
import MapFeatures.Proofs.Ring.ClosedFragments
import MapFeatures.Proofs.Ring.Holes
import MapFeatures.Proofs.Store.Appended
import MapFeatures.Proofs.Store.Marked
import MapFeatures.Proofs.Store.WholeBatch
import MapFeatures.Proofs.Plane.Meeting
import MapFeatures.Proofs.Plane.SelfIntersection
import MapFeatures.Proofs.Store.Addresses
import MapFeatures.Proofs.Number.Units
import MapFeatures.Proofs.Plane.Direction
import MapFeatures.Proofs.Shape.Corrected
import MapFeatures.Proofs.Feature.Merging
import MapFeatures.Proofs.Classify.Queries
import MapFeatures.Proofs.Ingest.Tally
import MapFeatures.Proofs.Plane.Chords
import MapFeatures.Proofs.Shape.Enclosed

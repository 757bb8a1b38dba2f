import RadianceTransfer.Main
import RadianceTransfer.Storage.Directory
import RadianceTransfer.Proofs.Bvh.Agreement
import RadianceTransfer.Proofs.Exact
import RadianceTransfer.Proofs.Geometry.Box
import RadianceTransfer.Proofs.Mesh.Hit
import RadianceTransfer.Proofs.Bvh.Construction
import RadianceTransfer.Proofs.Bvh.Tree
import RadianceTransfer.Proofs.Bvh.Writing
import RadianceTransfer.Proofs.Bvh.Layout
import RadianceTransfer.Proofs.Bvh.Primitives
import RadianceTransfer.Proofs.Bvh.Walk
import RadianceTransfer.Proofs.Bvh.Queries
import RadianceTransfer.Proofs.Bvh.WellFormed
import RadianceTransfer.Proofs.Bvh.Nearest
import RadianceTransfer.Proofs.Bvh.Chain
import RadianceTransfer.Proofs.Bvh.Waiting
import RadianceTransfer.Proofs.Parallel.Schedules
import RadianceTransfer.Proofs.Outcome
import RadianceTransfer.Proofs.Transport.Table
import RadianceTransfer.Proofs.Harmonics.Basis
import RadianceTransfer.Proofs.Transport.Passes
import RadianceTransfer.Proofs.Transport.Levels
import RadianceTransfer.Proofs.Field
import RadianceTransfer.Proofs.Transport.Energy
import RadianceTransfer.Proofs.Transport.Environment
import RadianceTransfer.Proofs.Transport.Orders
import RadianceTransfer.Proofs.Storage.Outputs
import RadianceTransfer.Proofs.Harmonics.Inverse
import RadianceTransfer.Proofs.Harmonics.RotatedFunction
import RadianceTransfer.Proofs.Transport.Texels
import RadianceTransfer.Proofs.Bvh.Progress
import RadianceTransfer.Proofs.Harmonics.Index
import RadianceTransfer.Proofs.Harmonics.Rotation
import RadianceTransfer.Proofs.Harmonics.LowDegrees
import RadianceTransfer.Proofs.Geometry.Rotation
import RadianceTransfer.Proofs.Number.Double
import RadianceTransfer.Proofs.Sampling.Stream
import RadianceTransfer.Proofs.Geometry.WrittenRotation
import RadianceTransfer.Proofs.Harmonics.Parity
import RadianceTransfer.Proofs.Cubemap.SolidAngle
import RadianceTransfer.Proofs.Cubemap.Antipode
import RadianceTransfer.Proofs.Transport.OddDegrees
import RadianceTransfer.Proofs.Storage.Written
import RadianceTransfer.Proofs.Integrator.History
import RadianceTransfer.Proofs.Mesh.Crossing
import RadianceTransfer.Proofs.Geometry.Slab
import RadianceTransfer.Proofs.Transport.SelfHits
import RadianceTransfer.Proofs.Harmonics.Numbering
import RadianceTransfer.Proofs.Harmonics.Layout
import RadianceTransfer.Proofs.Harmonics.RowMajor
import RadianceTransfer.Proofs.Transport.Visibility
import RadianceTransfer.Proofs.Cubemap.Coverage
import RadianceTransfer.Proofs.Cubemap.Cell
import RadianceTransfer.Proofs.Harmonics.Legendre
import RadianceTransfer.Proofs.Harmonics.ClosedForms
import RadianceTransfer.Proofs.Number.SquareRoot
import RadianceTransfer.Proofs.Sampling.Strata
import RadianceTransfer.Proofs.Mesh.Normals
import RadianceTransfer.Proofs.Integrator.Shading
import RadianceTransfer.Proofs.Transport.Superposition
import RadianceTransfer.Proofs.Number.Value
import RadianceTransfer.Proofs.Ply.Payload
import RadianceTransfer.Proofs.Harmonics.Bands
import RadianceTransfer.Proofs.Transport.RotatedLight
import RadianceTransfer.Proofs.Harmonics.Spherical
import RadianceTransfer.Proofs.Cubemap.Loading
import RadianceTransfer.Proofs.Harmonics.InPlace
import RadianceTransfer.Proofs.Harmonics.LegendrePolynomial
import RadianceTransfer.Proofs.Transport.Columns
import RadianceTransfer.Proofs.Cubemap.UnboundedRadiance

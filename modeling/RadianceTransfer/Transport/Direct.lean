import RadianceTransfer.Harmonics.Projection
import RadianceTransfer.Parallel
import RadianceTransfer.Scene
import RadianceTransfer.Transport.Table

/-!
# Direct transport

How light from afar reaches a vertex: the cosine between its normal and the direction, nothing from
below, and, if shadows count, nothing where the scene is in the way. The transport of a vertex is
this function of the direction, projected on the basis.

## Main definitions

* `TransportParam`: what the passes over the vertices need besides the scene.
* `incoming`: the function that is projected.
* `projectDirect`: the table of a mesh.
-/

namespace RadianceTransfer

/-- What the passes over the vertices need besides the scene. -/
structure TransportParam (α : Type) where
  /-- The highest degree. -/
  order : UInt32
  /-- How many samples a vertex is meant to get. -/
  sampleCount : UInt32
  /-- The seed of all generators. -/
  seed : UInt64
  /-- Whether the scene casts shadows. -/
  shadowed : Bool
  /-- How far rays are pushed off the surface that they leave. -/
  rayBias : α
  /-- How the vertices are spread over workers. -/
  threads : ThreadParam

namespace TransportParam

variable {α : Type} [Scalar α]

/-- The sampler of a vertex in a pass. -/
@[inline] def sampler (param : TransportParam α) (pass : Pass) (mesh vertex : UInt32) :
    StratifiedSphere Pcg :=
  StratifiedSphere.ofSeed α param.sampleCount param.seed (streamId pass mesh vertex)

end TransportParam

variable {α : Type} [Scalar α]

/-- How much of the light from a direction arrives at a point with a normal. -/
@[specialize] def incoming (caster : RayCaster α) (param : TransportParam α) (point normal : Vec3 α)
    (sample : SphereSample α) : Outcome α := do
  let h := normal.dot sample.dir
  if h ≤ 0 then pure 0
  else if param.shadowed then
    if ← caster.blocked (Ray.offset point sample.dir param.rayBias) then pure 0 else pure h
  else pure h

/-- The direct transport of one vertex, the number of which is a word of 32 bits. -/
@[specialize] def directColumn (caster : RayCaster α) (meshId : UInt32) (mesh : Mesh α)
    (param : TransportParam α) (vertex : UInt32) : Outcome (List α) := do
  let point ← mesh.position vertex.toNat
  let normal ← mesh.normal vertex.toNat
  Harmonics.projectFunction param.order.toNat
    (param.sampler .direct meshId vertex) (incoming caster param point normal)

/-- The direct transport of the vertices of a mesh. -/
@[specialize] def projectDirect (caster : RayCaster α) (meshId : UInt32) (mesh : Mesh α)
    (param : TransportParam α) : Outcome (TransportTable α) := do
  let shLen ← Harmonics.coefficientCount? param.order
  let zero : TransportTable α ← TransportTable.zero? shLen mesh.vertexCount
  let columns ← parallelFor zero.columns.toArray param.threads fun vertex _ =>
    directColumn caster meshId mesh param vertex.toUInt32
  pure (TransportTable.ofChunks shLen columns.toList)

/-- The direct transport of all meshes, each with its position as its number. -/
@[specialize] def projectAllDirect (caster : RayCaster α) (meshes : Array (Mesh α))
    (param : TransportParam α) : Outcome (List (TransportTable α)) :=
  meshes.toList.zipIdx.mapM fun (mesh, i) => projectDirect caster i.toUInt32 mesh param

end RadianceTransfer

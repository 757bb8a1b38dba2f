import RadianceTransfer.Transport.Direct

/-!
# Interreflection

Light that reaches a vertex may come from another surface. Each level of interreflection gathers the
level before it from whatever the hemisphere of a vertex sees, if that surface looks back at the
vertex. A level reads nothing but the finished level before it.

## Main definitions

* `gather`: what a sample adds to a level.
* `projectBounce`: a level from the level before it.
* `addInterreflection`: the direct transport and a number of levels, summed.
-/

namespace RadianceTransfer

variable {α : Type} [Scalar α]

/-- Adds what comes from a direction to the coefficients of a vertex. Nothing comes from below, from
where no surface is, or from the back of a surface. -/
@[specialize] def gather (caster : RayCaster α) (meshes : Array (Mesh α))
    (prev : Array (TransportTable α)) (param : TransportParam α) (point normal : Vec3 α)
    (sample : SphereSample α) (sum : List α) : Outcome (List α) := do
  let h := normal.dot sample.dir
  if h ≤ 0 then pure sum
  else
    match ← caster.closest (Ray.offset point sample.dir param.rayBias) with
    | none => pure sum
    | some hit =>
      let hitMesh ← Outcome.get meshes hit.mesh
      let hitNormal ← hitMesh.blendNormal hit.corners hit.weights
      if hitNormal.dot (-sample.dir) ≤ 0 then pure sum
      else
        let table ← Outcome.get prev hit.mesh
        table.addBlend hit.corners hit.weights (h * (1 / Scalar.twoPi)) sum

/-- The next level of one vertex, the number of which is a word of 32 bits. -/
@[specialize] def bounceColumn (caster : RayCaster α) (meshes : Array (Mesh α))
    (prev : Array (TransportTable α)) (depth : UInt32) (param : TransportParam α) (shLen : Nat)
    (meshId : UInt32) (mesh : Mesh α) (vertex : UInt32) : Outcome (List α) := do
  let point ← mesh.position vertex.toNat
  let normal ← mesh.normal vertex.toNat
  Harmonics.projectVector shLen (param.sampler (.bounce depth) meshId vertex)
    (gather caster meshes prev param point normal)

/-- The next level of the vertices of one mesh. -/
@[specialize] def bounceTable (caster : RayCaster α) (meshes : Array (Mesh α))
    (prev : Array (TransportTable α)) (depth : UInt32) (param : TransportParam α)
    (mesh : Mesh α) (meshId : Nat) : Outcome (TransportTable α) := do
  let shLen := (← Outcome.get prev meshId).shLen
  let zero : TransportTable α ← TransportTable.zero? shLen mesh.vertexCount
  let columns ← parallelFor zero.columns.toArray param.threads fun vertex _ =>
    bounceColumn caster meshes prev depth param shLen meshId.toUInt32 mesh vertex.toUInt32
  pure (TransportTable.ofChunks shLen columns.toList)

/-- A level of interreflection for all meshes from the level before it, which has a table for each
mesh. -/
@[specialize] def projectBounce (caster : RayCaster α) (meshes : Array (Mesh α))
    (prev : List (TransportTable α)) (depth : UInt32) (param : TransportParam α) :
    Outcome (List (TransportTable α)) :=
  let prev := prev.toArray
  meshes.toList.zipIdx.mapM fun (mesh, i) => bounceTable caster meshes prev depth param mesh i

/-- Adds tables to tables, over those that both lists have. Further tables of the first list
stay. -/
@[specialize] def addTables : List (TransportTable α) → List (TransportTable α) →
    Outcome (List (TransportTable α))
  | t :: ts, l :: ls => do
    let s ← t.add l
    let rest ← addTables ts ls
    pure (s :: rest)
  | ts, [] => pure ts
  | [], _ => pure []

/-- Adds a number of levels to a sum, given the last level in it and its depth. -/
@[specialize] def addLevels (caster : RayCaster α) (meshes : Array (Mesh α))
    (param : TransportParam α) : (levels : Nat) → (depth : UInt32) →
    (total prev : List (TransportTable α)) → Outcome (List (TransportTable α))
  | 0, _, total, _ => pure total
  | levels + 1, depth, total, prev => do
    let level ← projectBounce caster meshes prev (depth + 1) param
    let total ← addTables total level
    addLevels caster meshes param levels (depth + 1) total level

/-- The direct transport together with a number of levels of interreflection. -/
@[specialize] def addInterreflection (caster : RayCaster α) (meshes : Array (Mesh α))
    (direct : List (TransportTable α)) (bounce : UInt32) (param : TransportParam α) :
    Outcome (List (TransportTable α)) :=
  addLevels caster meshes param bounce.toNat 0 direct direct

end RadianceTransfer

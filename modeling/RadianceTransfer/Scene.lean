import RadianceTransfer.Bvh.Traversal

/-!
# Scenes

A scene is a list of meshes with a hierarchy over all their triangles. What the precomputation and
the shading ask of a scene is a `RayCaster`: whether a ray hits anything, and what it hits first.

## Main definitions

* `SurfaceHit`: what there is to know about a hit.
* `RayCaster`: the two questions.
* `Scene.build`: the scene of some meshes.
* `Scene.caster`: its answers.
-/

namespace RadianceTransfer

/-- What there is to know about a ray hitting a triangle. -/
structure SurfaceHit (α : Type) where
  /-- The number of the mesh. -/
  mesh : Nat
  /-- The corners of the triangle, in the order of the mesh. -/
  corners : Triangle
  /-- The weights of the corners at the hit. -/
  weights : Vec3 α
  /-- The point that was hit. -/
  point : Vec3 α

/-- The questions that are asked with a ray. -/
structure RayCaster (α : Type) where
  /-- Whether a ray hits anything. -/
  blocked : Ray α → Outcome Bool
  /-- The nearest hit of a ray, if there is one. -/
  closest : Ray α → Outcome (Option (SurfaceHit α))

/-- Meshes, and a hierarchy over their triangles. -/
structure Scene (α : Type) where
  /-- The meshes. -/
  meshes : Array (Mesh α)
  /-- The hierarchy. -/
  hierarchy : Bvh.Hierarchy α
  /-- How far a ray that leaves a surface is pushed along its direction. -/
  rayBias : α

namespace Scene

variable {α : Type} [Scalar α]

/-- How many triangles a leaf of the hierarchy is meant to hold. -/
def maxPerLeaf : Nat := 4

/-- The push of leaving rays: a small fraction of the diagonal of the scene, but never nothing. -/
@[specialize] def biasOf (meshes : Array (Mesh α)) (box : Box α) : α :=
  if meshes.any fun m => 0 < m.triangleCount then
    Scalar.maxNumber (box.diagonal.length * 1e-5) 1e-9
  else 1e-9

/-- The scene of some meshes. -/
@[specialize] def build (a : Bvh.Arrangement) (meshes : Array (Mesh α)) : Outcome (Scene α) := do
  let hierarchy ← Bvh.Hierarchy.build a meshes maxPerLeaf
  pure ⟨meshes, hierarchy, biasOf meshes hierarchy.box⟩

/-- Whether a ray hits anything in the scene. -/
@[specialize] def blocked (s : Scene α) (ray : Ray α) : Outcome Bool :=
  s.hierarchy.isHit s.meshes ray Scalar.infinity

/-- The nearest hit of a ray in the scene. -/
@[specialize] def closest (s : Scene α) (ray : Ray α) : Outcome (Option (SurfaceHit α)) := do
  match ← s.hierarchy.closestHit s.meshes ray Scalar.infinity with
  | none => pure none
  | some (p, hit) =>
    let mesh ← Outcome.get s.meshes p.mesh
    let corners ← mesh.triangle p.triangle
    pure (some ⟨p.mesh, corners, hit.weights, ray.pointAt hit.t⟩)

/-- The answers of a scene. -/
@[inline] def caster (s : Scene α) : RayCaster α :=
  ⟨s.blocked, s.closest⟩

end Scene

end RadianceTransfer

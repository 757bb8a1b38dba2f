import RadianceTransfer.Geometry.Vec3

/-!
# Rays

A ray is an origin and a direction, which need not have length one. A ray that leaves a surface
starts a little way along its direction, so that it does not at once meet the surface again.
-/

namespace RadianceTransfer

/-- A ray. -/
structure Ray (α : Type) where
  /-- Where the ray starts. -/
  org : Vec3 α
  /-- Where it goes. -/
  dir : Vec3 α

namespace Ray

variable {α : Type} [Scalar α]

/-- The ray along a direction whose origin is pushed along it by a bias. -/
@[inline] def offset (org dir : Vec3 α) (bias : α) : Ray α :=
  ⟨org + dir.scale bias, dir⟩

/-- The point at a parameter. -/
@[inline] def pointAt (r : Ray α) (t : α) : Vec3 α :=
  r.org + r.dir.scale t

end Ray

end RadianceTransfer

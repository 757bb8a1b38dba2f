import RadianceTransfer.Geometry.Ray
import RadianceTransfer.Mesh.Basic

/-!
# Rays against triangles

A triangle is moved so that the ray starts at the origin, its axes are exchanged so that the ray
runs mainly along the third one, and it is sheared so that the ray runs exactly along it. Whether
the ray meets the triangle is then decided by the signs of three edge functions in the plane, and no
gap can open along a shared edge.

A hit is reported only if its parameter exceeds a bound on the rounding error that it carries, so a
ray never meets the surface it starts on.

## Main definitions

* `RayFrame`: the exchange of axes and the shear, the same for all triangles.
* `TriangleHit`: the parameter and the corner weights of a hit.
* `RayFrame.hit?`: the test.
-/

namespace RadianceTransfer

/-- The axes in the order in which a ray looks at them, and the shear that makes the ray run along
the last one. -/
structure RayFrame (α : Type) where
  /-- The axis that takes the place of the first one. -/
  xAxis : Axis
  /-- The axis that takes the place of the second one. -/
  yAxis : Axis
  /-- The axis along which the ray mainly runs. -/
  zAxis : Axis
  /-- The shear. -/
  shear : Vec3 α

/-- Where a ray meets a triangle. -/
structure TriangleHit (α : Type) where
  /-- The parameter along the ray. -/
  t : α
  /-- The weights of the three corners. -/
  weights : Vec3 α

namespace RayFrame

variable {α : Type}

/-- The components of a vector in the order of the frame. -/
@[inline] def permute (f : RayFrame α) (v : Vec3 α) : Vec3 α :=
  ⟨v.get f.xAxis, v.get f.yAxis, v.get f.zAxis⟩

variable [Scalar α]

/-- The frame of a ray. -/
@[specialize] def ofRay (ray : Ray α) : RayFrame α :=
  let main := ray.dir.abs.maxDim
  let second := main.next
  let third := second.next
  let inv := 1 / ray.dir.get main
  ⟨second, third, main, ⟨-ray.dir.get second * inv, -ray.dir.get third * inv, inv⟩⟩

/-- A corner seen from the ray: relative to its origin, with the axes of the frame, and sheared in
the plane. -/
@[inline] def look (f : RayFrame α) (org corner : Vec3 α) : Vec3 α :=
  let p := f.permute (corner - org)
  ⟨f.shear.x * p.z + p.x, f.shear.y * p.z + p.y, p.z⟩

/-- The largest magnitude among three scalars. -/
@[inline] def maxMagnitude (a b c : α) : α :=
  Scalar.maxNumber (Signed.abs a) (Scalar.maxNumber (Signed.abs b) (Signed.abs c))

/-- A bound on the rounding error of the parameter of a hit, from the corners as seen from the ray,
their distances along it and the edge functions. -/
@[inline] def errorBound (p0 p1 p2 z e : Vec3 α) (invSum : α) : α :=
  let maxZ := maxMagnitude z.x z.y z.z
  let deltaZ := Scalar.roundingBound 3 * maxZ
  let maxX := maxMagnitude p0.x p1.x p2.x
  let deltaX := Scalar.roundingBound 5 * (maxX + maxZ)
  let maxY := maxMagnitude p0.y p1.y p2.y
  let deltaY := Scalar.roundingBound 5 * (maxY + maxZ)
  let deltaE := 2 * (Scalar.roundingBound 2 * maxX * maxY + deltaY * maxX + deltaX * maxY)
  let maxE := maxMagnitude e.x e.y e.z
  3 * (Scalar.roundingBound 3 * maxE * maxZ + deltaE * maxZ + deltaZ * maxE) * Signed.abs invSum

/-- Where a ray meets the triangle of three corners at a parameter up to `tFar`. -/
@[specialize] def hit? (f : RayFrame α) (ray : Ray α) (tFar : α) (c0 c1 c2 : Vec3 α) :
    Option (TriangleHit α) :=
  let p0 := f.look ray.org c0
  let p1 := f.look ray.org c1
  let p2 := f.look ray.org c2
  let e : Vec3 α :=
    ⟨p1.x * p2.y - p1.y * p2.x, p2.x * p0.y - p2.y * p0.x, p0.x * p1.y - p0.y * p1.x⟩
  if (e.x < 0 ∨ e.y < 0 ∨ e.z < 0) ∧ (0 < e.x ∨ 0 < e.y ∨ 0 < e.z) then none
  else
    let sum := e.x + e.y + e.z
    if sum == 0 then none
    else
      let z : Vec3 α := ⟨p0.z * f.shear.z, p1.z * f.shear.z, p2.z * f.shear.z⟩
      let scaled := e.x * z.x + e.y * z.y + e.z * z.z
      if (sum < 0 ∧ (0 ≤ scaled ∨ scaled < tFar * sum)) ∨
          (0 < sum ∧ (scaled ≤ 0 ∨ tFar * sum < scaled)) then none
      else
        let invSum := 1 / sum
        let t := scaled * invSum
        if t ≤ errorBound p0 p1 p2 z e invSum then none
        else some ⟨t, ⟨e.x * invSum, e.y * invSum, e.z * invSum⟩⟩

end RayFrame

/-- Where a ray meets a triangle of a mesh. -/
@[specialize] def Mesh.hit? {α : Type} [Scalar α] (m : Mesh α) (f : RayFrame α) (ray : Ray α)
    (tFar : α) (t : Triangle) : Outcome (Option (TriangleHit α)) := do
  let c0 ← m.position t.i0.toNat
  let c1 ← m.position t.i1.toNat
  let c2 ← m.position t.i2.toNat
  pure (f.hit? ray tFar c0 c1 c2)

end RadianceTransfer

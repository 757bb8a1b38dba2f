import RadianceTransfer.Geometry.Vec3

/-!
# Spherical coordinates

A direction is given by its azimuth about the third axis, in `[0, 2 pi)`, and by its angle from
that axis, in `[0, pi]`.
-/

namespace RadianceTransfer.Harmonics

variable {α : Type} [Scalar α]

/-- The direction with the given azimuth and the given angle from the third axis. -/
@[inline] def toVector (phi theta : α) : Vec3 α :=
  let r := Scalar.sin theta
  ⟨r * Scalar.cos phi, r * Scalar.sin phi, Scalar.cos theta⟩

/-- The azimuth and the angle from the third axis of a direction of any length. -/
@[inline] def toSpherical (dir : Vec3 α) : α × α :=
  let dir := dir.normalize
  let theta := Scalar.acos (Scalar.minNumber (Scalar.maxNumber dir.z (-1)) 1)
  let phi := Scalar.atan2 dir.y dir.x
  (if phi < 0 then phi + Scalar.twoPi else phi, theta)

end RadianceTransfer.Harmonics

import RadianceTransfer.Geometry.Ray

/-!
# Boxes

Axis-parallel boxes, kept as their lower and upper corner. The empty box has its corners at
infinity the wrong way round, so that combining it with anything gives the other operand.

## Main definitions

* `Box.empty`, `Box.ofPoint`, `Box.addPoint`, `Box.union`: building boxes.
* `Box.hits`: the slab test of a ray against a box.
-/

namespace RadianceTransfer

/-- An axis-parallel box. -/
structure Box (α : Type) where
  /-- The lower corner. -/
  lower : Vec3 α
  /-- The upper corner. -/
  upper : Vec3 α
  deriving DecidableEq

namespace Box

variable {α : Type} [Scalar α]

/-- The box that holds no point. -/
@[inline] def empty : Box α :=
  ⟨⟨Scalar.infinity, Scalar.infinity, Scalar.infinity⟩,
    ⟨-Scalar.infinity, -Scalar.infinity, -Scalar.infinity⟩⟩

/-- The box of a single point. -/
@[inline] def ofPoint (p : Vec3 α) : Box α :=
  ⟨p, p⟩

/-- The box with a further point in it. -/
@[inline] def addPoint (b : Box α) (p : Vec3 α) : Box α :=
  ⟨b.lower.min p, b.upper.max p⟩

/-- The box around two boxes. -/
@[inline] def union (a b : Box α) : Box α :=
  ⟨a.lower.min b.lower, a.upper.max b.upper⟩

/-- The vector from the lower to the upper corner. -/
@[inline] def diagonal (b : Box α) : Vec3 α :=
  b.upper - b.lower

/-- The center. -/
@[inline] def centroid (b : Box α) : Vec3 α :=
  (b.lower + b.upper).scale 0.5

/-- The axis of the largest extent. -/
@[inline] def maxDim (b : Box α) : Axis :=
  b.diagonal.maxDim

/-- Where a coordinate lies between two bounds: 0 at the lower one, 1 at the upper one. Where the
bounds enclose nothing the distance from the lower one is left as it is. -/
@[inline] def relative (lower upper p : α) : α :=
  if lower < upper then (p - lower) / (upper - lower) else p - lower

/-- Where a point lies relative to the corners. -/
@[inline] def offset (b : Box α) (p : Vec3 α) : Vec3 α :=
  ⟨relative b.lower.x b.upper.x p.x, relative b.lower.y b.upper.y p.y,
    relative b.lower.z b.upper.z p.z⟩

/-- The area of the surface. -/
@[inline] def surfaceArea (b : Box α) : α :=
  let d := b.diagonal
  2 * (d.x * d.y + d.x * d.z + d.y * d.z)

/-- The corner at a position: 0 for the lower one, 1 for the upper one. -/
def corner? (b : Box α) (i : Nat) : Outcome (Vec3 α) :=
  match i with
  | 0 => .ok b.lower
  | 1 => .ok b.upper
  | _ => violate .indexOutOfRange

/-- The coordinate of the bound that a ray passes first on an axis, and of the one it passes
last. -/
@[inline] def nearFar (negative : Bool) (lower upper : α) : α × α :=
  if negative then (upper, lower) else (lower, upper)

/-- The factor by which the far bound of a slab is moved away, which makes the test
conservative. -/
@[inline] def slack : α :=
  1 + 2 * Scalar.roundingBound 3

/-- The slab test: whether a ray passes the box at a parameter before `tFar`. It takes the inverse
of the ray's direction and, for each axis, whether the ray runs backwards along it, both of which
are the same for all boxes. -/
@[inline] def hits (b : Box α) (ray : Ray α) (tFar : α) (invDir : Vec3 α) (backwards : Vec3 Bool) :
    Bool :=
  let (nearX, farX) := nearFar backwards.x b.lower.x b.upper.x
  let (nearY, farY) := nearFar backwards.y b.lower.y b.upper.y
  let tMin := (nearX - ray.org.x) * invDir.x
  let tMax := (farX - ray.org.x) * invDir.x * slack
  let tyMin := (nearY - ray.org.y) * invDir.y
  let tyMax := (farY - ray.org.y) * invDir.y * slack
  if tyMax < tMin ∨ tMax < tyMin then false
  else
    let tMin := if tMin < tyMin then tyMin else tMin
    let tMax := if tyMax < tMax then tyMax else tMax
    let (nearZ, farZ) := nearFar backwards.z b.lower.z b.upper.z
    let tzMin := (nearZ - ray.org.z) * invDir.z
    let tzMax := (farZ - ray.org.z) * invDir.z * slack
    if tzMax < tMin ∨ tMax < tzMin then false
    else
      let tMin := if tMin < tzMin then tzMin else tMin
      let tMax := if tzMax < tMax then tzMax else tMax
      decide (tMin < tFar ∧ 0 < tMax)

end Box

end RadianceTransfer

import RadianceTransfer.Geometry.Vec3

/-!
# Faces of a cube

The directions around a point are seen through the six faces of a cube. Each face has a grid of
texels, laid out along two axes, and an outward normal.

## Main definitions

* `CubeFace`: the faces, with `CubeFace.all` in the order in which they are stored.
* `FaceBasis`: the axes and the normal of a face.
* `texelDirection`: the direction through the center of a texel.
* `texelSolidAngle`: how much of the sphere a texel covers.
-/

namespace RadianceTransfer

/-- A face of the cube. -/
inductive CubeFace where
  /-- Against the first axis. -/
  | negX
  /-- Along the first axis. -/
  | posX
  /-- Along the second axis. -/
  | posY
  /-- Against the second axis. -/
  | negY
  /-- Along the third axis. -/
  | posZ
  /-- Against the third axis. -/
  | negZ
  deriving DecidableEq

/-- The axes along which the texels of a face are laid out, and its outward normal. -/
structure FaceBasis (α : Type) where
  /-- Where the columns go. -/
  xAxis : Vec3 α
  /-- Where the rows go. -/
  yAxis : Vec3 α
  /-- Where the face looks. -/
  normal : Vec3 α

namespace CubeFace

/-- The faces in the order in which they are loaded and stored. -/
def all : List CubeFace :=
  [negX, posX, posY, negY, posZ, negZ]

/-- The name of a face in a folder of faces. -/
def name : CubeFace → String
  | negX => "negx"
  | posX => "posx"
  | posY => "posy"
  | negY => "negy"
  | posZ => "posz"
  | negZ => "negz"

/-- The basis of a face. -/
def basis {α : Type} [Scalar α] : CubeFace → FaceBasis α
  | negX => ⟨⟨0, 0, 1⟩, ⟨0, -1, 0⟩, ⟨-1, 0, 0⟩⟩
  | posX => ⟨⟨0, 0, 1⟩, ⟨0, -1, 0⟩, ⟨1, 0, 0⟩⟩
  | negY => ⟨⟨1, 0, 0⟩, ⟨0, 0, -1⟩, ⟨0, -1, 0⟩⟩
  | posY => ⟨⟨1, 0, 0⟩, ⟨0, 0, 1⟩, ⟨0, 1, 0⟩⟩
  | negZ => ⟨⟨-1, 0, 0⟩, ⟨0, -1, 0⟩, ⟨0, 0, -1⟩⟩
  | posZ => ⟨⟨1, 0, 0⟩, ⟨0, -1, 0⟩, ⟨0, 0, 1⟩⟩

end CubeFace

variable {α : Type} [Scalar α]

/-- The coordinate of the center of a texel on a side of the square from `-1` to `1`. -/
@[inline] def texelCoordinate (i count : Nat) : α :=
  2 * (Scalar.ofNat i + 0.5) / Scalar.ofNat count - 1

/-- The unit vector through the center of the texel in a column and a row of a face. -/
@[specialize] def texelDirection (face : CubeFace) (x y width height : Nat) : Vec3 α :=
  let u := texelCoordinate x width
  let v := texelCoordinate y height
  let b : FaceBasis α := face.basis
  (b.xAxis.scale u + b.yAxis.scale v + b.normal).normalize

/-- How much of the sphere the rectangle between the center of a face and a point of it covers, with
a sign. -/
@[inline] def rectangleSolidAngle (x y : α) : α :=
  Scalar.atan2 (x * y) (Scalar.sqrt (x * x + y * y + 1))

/-- How much of the sphere the texel in a column and a row covers. It is the same on every face. -/
@[specialize] def texelSolidAngle (x y width height : Nat) : α :=
  let u : α := texelCoordinate x width
  let v : α := texelCoordinate y height
  let halfWidth : α := 1 / Scalar.ofNat width
  let halfHeight : α := 1 / Scalar.ofNat height
  let x0 := u - halfWidth
  let y0 := v - halfHeight
  let x1 := u + halfWidth
  let y1 := v + halfHeight
  rectangleSolidAngle x0 y0 - rectangleSolidAngle x0 y1 - rectangleSolidAngle x1 y0 +
    rectangleSolidAngle x1 y1

end RadianceTransfer
